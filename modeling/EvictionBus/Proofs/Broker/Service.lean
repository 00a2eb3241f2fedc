import EvictionBus.Proofs.Broker.Record

/-!
# A broker in memory keeps its record

`Agrees` ties the sessions of a broker to its record: what a session has read and what waits in its
queue is what the record says that it has to read.  Every request keeps it.  What the broker answers
next then follows from the record, except for the tags, of which it is said that none is given out
twice.
-/

namespace EvictionBus.Broker

open Record

namespace Memory

variable {h : Record} {b b' : Memory} {e : Entry} {n m : Nat} {s s' : Session}

/-! ## Tags in queues -/

/-- The tags that wait in the queues of some sessions. -/
def queuedTags (ss : List Session) : List Nat :=
  ss.flatMap (·.queue.map Delivery.tag)

theorem queuedTags_map {f : Session → Session} (hf : ∀ s, (f s).queue = s.queue)
    (ss : List Session) : queuedTags (ss.map f) = queuedTags ss := by
  unfold queuedTags
  rw [List.flatMap_map]
  simp only [hf]

/-- A session that changes has some of its deliveries taken away. -/
theorem queuedTags_modify {ss : List Session} (hs : ss[n]? = some s) {f : Session → Session}
    {taken : List Nat} (hf : s.queue.map Delivery.tag = taken ++ (f s).queue.map Delivery.tag) :
    (queuedTags ss).Perm (taken ++ queuedTags (ss.modify n f)) := by
  -- Behind the sessions before it the tags that it loses may be moved to the front.
  induction ss generalizing n with
  | nil => cases hs
  | cons head rest ih =>
    unfold queuedTags at ih ⊢
    cases n with
    | zero =>
      cases hs
      rw [List.modify_zero_cons, List.flatMap_cons, List.flatMap_cons, hf, List.append_assoc]
    | succ n =>
      rw [List.modify_succ_cons, List.flatMap_cons, List.flatMap_cons]
      refine ((ih hs).append_left _).trans ?_
      rw [← List.append_assoc, ← List.append_assoc]
      exact List.perm_append_comm.append_right _

/-- A message puts new tags into queues, one after another. -/
theorem queuedTags_distribute (sender : Binding) (payload : Bytes) (ss : List Session) (tag : Nat) :
    ∃ given, (queuedTags (distribute sender payload tag ss).2).Perm (queuedTags ss ++ given) ∧
      given.Nodup ∧ ∀ t ∈ given, tag < t ∧ t ≤ (distribute sender payload tag ss).1 := by
  induction ss generalizing tag with
  | nil => exact ⟨[], List.Perm.refl _, List.nodup_nil, fun t ht => absurd ht List.not_mem_nil⟩
  | cons head rest ih =>
    have hcons : ∀ (s : Session) (ss : List Session),
        queuedTags (s :: ss) = s.queue.map Delivery.tag ++ queuedTags ss :=
      fun s ss => List.flatMap_cons
    by_cases hhead : head.bound = true ∧ head.binding.exchange = sender.exchange
    · obtain ⟨given, hperm, hnodup, hgiven⟩ := ih (tag + 1)
      have hle := (distribute_spec sender payload rest (tag + 1)).1
      simp only [distribute, if_pos hhead]
      by_cases hreading : head.reading = true
      · rw [if_pos hreading, hcons, hcons]
        refine ⟨(tag + 1) :: given, ?_, ?_, ?_⟩
        · simp only [List.map_append, List.map_cons, List.map_nil, List.append_assoc]
          refine ((hperm.append_left [tag + 1]).append_left _).trans ?_
          apply List.Perm.append_left
          rw [List.singleton_append]
          exact List.perm_middle.symm
        · refine List.nodup_cons.2 ⟨fun hmem => ?_, hnodup⟩
          have := (hgiven _ hmem).1
          omega
        · intro t ht
          rcases List.mem_cons.1 ht with rfl | ht
          · exact ⟨by omega, hle⟩
          · have := hgiven t ht
            omega
      · rw [if_neg hreading, hcons, hcons]
        refine ⟨given, ?_, hnodup, fun t ht => ?_⟩
        · rw [List.append_assoc]
          exact hperm.append_left _
        · have := hgiven t ht
          omega
    · obtain ⟨given, hperm, hnodup, hgiven⟩ := ih tag
      simp only [distribute, if_neg hhead]
      refine ⟨given, ?_, hnodup, hgiven⟩
      rw [hcons, hcons, List.append_assoc]
      exact hperm.append_left _

/-! ## Sessions -/

/-- What the record says about a session is what the broker knows about it. -/
structure Tracks (h : Record) (b : Memory) (n : Nat) (s : Session) : Prop where
  binding_eq : h.bindings[n]? = some s.binding
  lost_iff : h.lost n = true ↔ s.generation ≠ b.generation
  dropped_iff : h.dropped n = true ↔ s.reading = false
  bound_current : s.bound = true → s.generation = b.generation
  queue_eq : s.reading = true → h.due n = (h.taken n ++ s.queue).map Delivery.message
  taken_prefix : (h.taken n).map Delivery.message <+: h.due n

/-- What an entry of the record does to a session, apart from its queue. -/
structure Followed (b b' : Memory) (e : Entry) (n : Nat) (s s' : Session) : Prop where
  binding_eq : s'.binding = s.binding
  lost_iff : s'.generation ≠ b'.generation ↔ s.generation ≠ b.generation ∨ e.isOutage = true
  dropped_iff : s'.reading = false ↔ s.reading = false ∨ e.drops n = true
  bound_current : s'.bound = true → s'.generation = b'.generation

theorem Tracks.concat (hs : b.Tracks h n s) (hf : Followed b b' e n s s')
    (hqueue : s'.reading = true →
      (h ++ [e]).due n = ((h ++ [e]).taken n ++ s'.queue).map Delivery.message)
    (hread : ((h ++ [e]).taken n).map Delivery.message <+: (h ++ [e]).due n) :
    b'.Tracks (h ++ [e]) n s' := by
  have hn := (List.getElem?_eq_some_iff.1 hs.binding_eq).1
  constructor
  case binding_eq =>
    rw [bindings_concat, List.getElem?_append_left hn, hs.binding_eq, hf.binding_eq]
  case lost_iff => rw [lost_concat hn, Bool.or_eq_true, hs.lost_iff, hf.lost_iff]
  case dropped_iff => rw [dropped_concat hn, Bool.or_eq_true, hs.dropped_iff, hf.dropped_iff]
  case bound_current => exact hf.bound_current
  case queue_eq => exact hqueue
  case taken_prefix => exact hread

/-- A session is followed over an entry that neither publishes nor lets it read. -/
theorem Tracks.concat_of_quiet (hs : b.Tracks h n s) (hh : Grounded h) (he : e.published? = none)
    (hd : ∀ d, e.delivery? ≠ some (n, d)) (hf : Followed b b' e n s s')
    (hqueue : s'.reading = true → s.reading = true ∧ s'.queue = s.queue) :
    b'.Tracks (h ++ [e]) n s' := by
  have hdue : Record.due (h ++ [e]) n = Record.due h n := by
    rw [hh.due_concat hs.binding_eq, message?_of_unpublished he]
    split <;> exact List.append_nil _
  refine hs.concat hf (fun hreading => ?_) ?_
  · obtain ⟨hreading, heq⟩ := hqueue hreading
    rw [hdue, taken_concat_of_other hd, heq, hs.queue_eq hreading]
  · rw [hdue, taken_concat_of_other hd]
    exact hs.taken_prefix

/-- The tags of all deliveries that have been read or wait to be read. -/
def tags (h : Record) (b : Memory) : List Nat :=
  h.deliveries.map (·.2.tag) ++ queuedTags b.sessions

/-- Tags count up, and none is given out twice. -/
structure Tagged (h : Record) (b : Memory) : Prop where
  nodup : (tags h b).Nodup
  le : ∀ t ∈ tags h b, t ≤ b.lastTag
  increase : ∀ n s, b.sessions[n]? = some s →
    ((h.taken n ++ s.queue).map Delivery.tag).Pairwise (· < ·)

structure Agrees (h : Record) (b : Memory) : Prop where
  sound : b.Sound
  grounded : Grounded h
  tagged : Tagged h b
  reachable_eq : b.reachable = h.reachable
  length_eq : b.sessions.length = h.bindings.length
  tracks : ∀ n s, b.sessions[n]? = some s → b.Tracks h n s
  /-- While the broker is offline no session is of the present time. -/
  offline : b.reachable = false → ∀ s ∈ b.sessions, s.generation ≠ b.generation
  published_eq : b.published = h.countP (·.published?.isSome)
  acknowledged_eq : b.acknowledged = h.countP Entry.isAcknowledgement

theorem agrees_start : start.Agrees [] where
  sound := sound_start
  grounded := ⟨fun _ he => absurd he List.not_mem_nil, fun _ hx => absurd hx List.not_mem_nil⟩
  tagged := ⟨List.nodup_nil, fun _ ht => absurd ht List.not_mem_nil, fun _ _ hs => by cases hs⟩
  reachable_eq := rfl
  length_eq := rfl
  tracks n s hs := by cases hs
  offline h := by cases h
  published_eq := rfl
  acknowledged_eq := rfl

theorem Agrees.lt (ha : b.Agrees h) (hs : b.sessions[n]? = some s) : n < h.bindings.length := by
  rw [← ha.length_eq]
  exact (List.getElem?_eq_some_iff.1 hs).1

theorem Agrees.exists_session (ha : b.Agrees h) (hn : n < h.bindings.length) :
    ∃ s, b.sessions[n]? = some s ∧ b.Tracks h n s := by
  rw [← ha.length_eq] at hn
  exact ⟨_, List.getElem?_eq_getElem hn, ha.tracks n _ (List.getElem?_eq_getElem hn)⟩

/-! ## Requests that hand nothing out -/

/-- An entry that opens no session, publishes nothing and lets nobody read. -/
structure Quiet (e : Entry) : Prop where
  opened_eq : e.opened? = none
  published_eq : e.published? = none
  delivery_eq : e.delivery? = none

theorem deliveries_of_undelivered (he : e.delivery? = none) :
    Record.deliveries (h ++ [e]) = Record.deliveries h := by
  rw [deliveries_concat, he]
  exact List.append_nil _

theorem taken_of_undelivered (he : e.delivery? = none) (n : Nat) :
    Record.taken (h ++ [e]) n = Record.taken h n :=
  taken_concat_of_other fun d hd => by
    rw [he] at hd
    cases hd

/-- No tag is new, and some may be gone. -/
theorem Tagged.shrink (ht : Tagged h b) (he : e.delivery? = none) (hlast : b'.lastTag = b.lastTag)
    (hqueues : ∃ gone, (queuedTags b.sessions).Perm (gone ++ queuedTags b'.sessions))
    (hsessions : ∀ n s', b'.sessions[n]? = some s' →
      (∃ s, b.sessions[n]? = some s ∧ s'.queue.Sublist s.queue) ∨
        h.taken n = [] ∧ s'.queue = []) : Tagged (h ++ [e]) b' := by
  obtain ⟨gone, hperm⟩ := hqueues
  have htags : (tags h b).Perm (gone ++ tags (h ++ [e]) b') := by
    unfold tags
    rw [deliveries_of_undelivered he, ← List.append_assoc]
    refine (hperm.append_left _).trans ?_
    rw [← List.append_assoc]
    exact List.perm_append_comm.append_right _
  constructor
  case nodup => exact (List.nodup_append.1 (htags.nodup_iff.1 ht.nodup)).2.1
  case le =>
    intro t hmem
    rw [hlast]
    exact ht.le t (htags.mem_iff.2 (List.mem_append_right _ hmem))
  case increase =>
    intro n s' hs'
    rw [taken_of_undelivered he]
    rcases hsessions n s' hs' with ⟨s, hs, hsub⟩ | ⟨htaken, hempty⟩
    · exact (ht.increase n s hs).sublist ((hsub.append_left _).map _)
    · rw [htaken, hempty]
      exact List.Pairwise.nil

theorem Agrees.quiet (ha : b.Agrees h) (he : Quiet e) (hsound : b'.Sound)
    (hlast : b'.lastTag = b.lastTag) (hlength : b'.sessions.length = b.sessions.length)
    (hqueues : ∃ gone, (queuedTags b.sessions).Perm (gone ++ queuedTags b'.sessions))
    (hsessions : ∀ n s s', b.sessions[n]? = some s → b'.sessions[n]? = some s' →
      Followed b b' e n s s' ∧ s'.queue.Sublist s.queue ∧
        (s'.reading = true → s.reading = true ∧ s'.queue = s.queue))
    (hreachable : b'.reachable = e.reachable?.getD b.reachable)
    (hoffline : b'.reachable = false → ∀ s ∈ b'.sessions, s.generation ≠ b'.generation)
    (hpublished : b'.published = b.published)
    (hacknowledged : b'.acknowledged = b.acknowledged + [e].countP Entry.isAcknowledgement) :
    b'.Agrees (h ++ [e]) := by
  have hbefore : ∀ (n : Nat) (s' : Session), b'.sessions[n]? = some s' →
      ∃ s, b.sessions[n]? = some s := by
    intro n s' hs'
    have hn := (List.getElem?_eq_some_iff.1 hs').1
    rw [hlength] at hn
    exact ⟨_, List.getElem?_eq_getElem hn⟩
  constructor
  case sound => exact hsound
  case grounded =>
    refine ha.grounded.concat (fun x hx => ?_) fun x hx => ?_
    · rw [he.published_eq] at hx
      cases hx
    · rw [he.delivery_eq] at hx
      cases hx
  case tagged =>
    refine ha.tagged.shrink he.delivery_eq hlast hqueues fun n s' hs' => ?_
    obtain ⟨s, hs⟩ := hbefore n s' hs'
    exact .inl ⟨s, hs, (hsessions n s s' hs hs').2.1⟩
  case reachable_eq => rw [reachable_concat, hreachable, ha.reachable_eq]
  case length_eq => rw [bindings_concat, he.opened_eq, hlength, ha.length_eq]; simp
  case tracks =>
    intro n s' hs'
    obtain ⟨s, hs⟩ := hbefore n s' hs'
    obtain ⟨hf, -, hqueue⟩ := hsessions n s s' hs hs'
    refine (ha.tracks n s hs).concat_of_quiet ha.grounded he.published_eq (fun d hd => ?_) hf hqueue
    rw [he.delivery_eq] at hd
    cases hd
  case offline => exact hoffline
  case published_eq =>
    rw [hpublished, List.countP_append, ha.published_eq]
    simp [he.published_eq]
  case acknowledged_eq => rw [hacknowledged, List.countP_append, ha.acknowledged_eq]

/-- The sessions are left as they are. -/
theorem Agrees.still (ha : b.Agrees h) (he : Quiet e) (hout : e.isOutage = false)
    (hdrops : ∀ n, e.drops n = false) (hreachable : e.reachable? = none) {acknowledged : Nat}
    (hacknowledged : acknowledged = b.acknowledged + [e].countP Entry.isAcknowledgement) :
    { b with acknowledged := acknowledged }.Agrees (h ++ [e]) := by
  refine ha.quiet he ⟨ha.sound.generation_le, ha.sound.bound⟩ rfl rfl ⟨[], List.Perm.refl _⟩ ?_
    (by rw [hreachable]; rfl) ha.offline rfl hacknowledged
  intro n s s' hs hs'
  rw [hs] at hs'
  cases hs'
  refine ⟨⟨rfl, ?_, ?_, (ha.tracks n s hs).bound_current⟩, List.Sublist.refl _, fun hreading =>
    ⟨hreading, rfl⟩⟩
  · simp [hout]
  · simp [hdrops]

theorem Agrees.dropReader (ha : b.Agrees h) (n : Nat) :
    (b.dropReader n).Agrees (h ++ [⟨.dropReader n, .done⟩]) := by
  let f : Session → Session := fun s => { s with queue := [], reading := false }
  have hget : ∀ (m : Nat) (s : Session), b.sessions[m]? = some s →
      (b.dropReader n).sessions[m]? = some (if n = m then f s else s) := by
    intro m s hs
    unfold Memory.dropReader modify
    rw [List.getElem?_modify, hs]
    rfl
  refine ha.quiet ⟨rfl, rfl, rfl⟩ ?_ rfl (List.length_modify _ _ _) ?_ ?_ rfl ?_ rfl rfl
  case refine_1 => exact ha.sound.modify fun s => ⟨rfl, fun hreading => by cases hreading⟩
  case refine_2 =>
    cases hs : b.sessions[n]? with
    | none =>
      refine ⟨[], ?_⟩
      unfold Memory.dropReader modify
      rw [List.modify_eq_self (List.getElem?_eq_none_iff.1 hs)]
      exact List.Perm.refl _
    | some s => exact ⟨_, queuedTags_modify hs (f := f) (List.append_nil _).symm⟩
  case refine_3 =>
    intro m s s' hs hs'
    rw [hget m s hs] at hs'
    cases hs'
    have hbound := (ha.tracks m s hs).bound_current
    by_cases hm : n = m
    · rw [if_pos hm]
      refine ⟨⟨rfl, ?_, ?_, hbound⟩, List.nil_sublist _, fun hreading => by cases hreading⟩
      · simp [Entry.isOutage, f, Memory.dropReader, modify]
      · simp [Entry.drops, f, hm]
    · rw [if_neg hm]
      refine ⟨⟨rfl, ?_, ?_, hbound⟩, List.Sublist.refl _, fun hreading => ⟨hreading, rfl⟩⟩
      · simp [Entry.isOutage, Memory.dropReader, modify]
      · simp [Entry.drops, hm]
  case refine_4 =>
    intro hoffline s' hs'
    obtain ⟨m, hm⟩ := List.mem_iff_getElem?.1 hs'
    obtain ⟨s, hs⟩ : ∃ s, b.sessions[m]? = some s := by
      have hlt := (List.getElem?_eq_some_iff.1 hm).1
      rw [show (b.dropReader n).sessions.length = b.sessions.length from
        List.length_modify _ _ _] at hlt
      exact ⟨_, List.getElem?_eq_getElem hlt⟩
    rw [hget m s hs] at hm
    cases hm
    have := ha.offline hoffline s (List.mem_of_getElem? hs)
    split <;> exact this

theorem Agrees.setReachable (ha : b.Agrees h) (value : Bool) :
    (b.setReachable value).Agrees (h ++ [⟨.setReachable value, .done⟩]) := by
  have hsound := ha.sound.setReachable value
  unfold Memory.setReachable at hsound ⊢
  split
  case isTrue hgone =>
    rw [if_pos hgone] at hsound
    obtain ⟨hreachable, hvalue⟩ := hgone
    have hvalue : value = false := by simpa using hvalue
    subst hvalue
    -- No session is of the new time.
    have hpast : ∀ s ∈ b.sessions, s.generation ≠ b.generation + 1 := by
      intro s hs
      have := ha.sound.generation_le s hs
      omega
    have hqueues := queuedTags_map (f := fun s => { s with bound := false }) (fun _ => rfl)
      b.sessions
    refine ha.quiet ⟨rfl, rfl, rfl⟩ hsound rfl (List.length_map _)
      ⟨[], List.Perm.of_eq hqueues.symm⟩ ?_ rfl ?_ rfl rfl
    · intro n s s' hs hs'
      rw [List.getElem?_map, hs] at hs'
      cases hs'
      refine ⟨⟨rfl, ?_, ?_, fun hbound => by cases hbound⟩, List.Sublist.refl _, fun hreading =>
        ⟨hreading, rfl⟩⟩
      · simp [Entry.isOutage, hpast s (List.mem_of_getElem? hs)]
      · simp [Entry.drops]
    · intro _ s' hs'
      obtain ⟨s, hs, rfl⟩ := List.mem_map.1 hs'
      exact hpast s hs
  case isFalse hstay =>
    rw [if_neg hstay] at hsound
    refine ha.quiet ⟨rfl, rfl, rfl⟩ hsound rfl rfl ⟨[], List.Perm.refl _⟩ ?_ rfl ?_ rfl rfl
    · intro n s s' hs hs'
      change b.sessions[n]? = some s' at hs'
      rw [hs] at hs'
      cases hs'
      refine ⟨⟨rfl, ?_, ?_, (ha.tracks n s hs).bound_current⟩, List.Sublist.refl _,
        fun hreading => ⟨hreading, rfl⟩⟩
      · -- It is an outage only if the broker has been offline before.
        refine ⟨fun hgeneration => .inl hgeneration, fun hgone => hgone.elim id fun hout => ?_⟩
        have hvalue : value = false := by simpa [Entry.isOutage] using hout
        exact ha.offline (by simpa [hvalue] using hstay) s (List.mem_of_getElem? hs)
      · simp [Entry.drops]
    · intro hvalue s hs
      change value = false at hvalue
      exact ha.offline (by simpa [hvalue] using hstay) s hs

/-! ## Connecting -/

/-- Nothing has happened yet since a session was opened. -/
theorem Tracks.opened (hh : Grounded h) (b : Memory) (binding : Binding) (n : Nat) :
    b.Tracks (h ++ [⟨.connect binding, .opened n⟩]) h.bindings.length
      ⟨binding, b.generation, [], true, true⟩ := by
  let e : Entry := ⟨.connect binding, .opened n⟩
  have hopened : (h ++ [e]).bindings = h.bindings ++ [binding] := bindings_concat h e
  have hsince : (h ++ [e]).since h.bindings.length = [] := since_opened rfl
  have htaken : (h ++ [e]).taken h.bindings.length = [] := by
    rw [taken_of_undelivered rfl, hh.taken_of_le (Nat.le_refl _)]
  have hdue : (h ++ [e]).due h.bindings.length = [] := by
    unfold Record.due
    rw [hsince, hopened, List.getElem?_append_right (Nat.le_refl _), Nat.sub_self]
    rfl
  constructor
  case binding_eq =>
    rw [hopened, List.getElem?_append_right (Nat.le_refl _), Nat.sub_self]
    rfl
  case lost_iff =>
    unfold Record.lost
    rw [hsince]
    simp
  case dropped_iff =>
    unfold Record.dropped
    rw [hsince]
    simp
  case bound_current => exact fun _ => rfl
  case queue_eq => exact fun _ => by rw [hdue, htaken]; rfl
  case taken_prefix => rw [hdue, htaken]; exact List.nil_prefix

/-- A session that has been there before. -/
theorem Tracks.prune (hold : b.Tracks h m s) (hh : Grounded h) {binding : Binding}
    (hgeneration : b'.generation = b.generation) :
    b'.Tracks (h ++ [⟨.connect binding, .opened n⟩]) m (prune binding.exchange s) := by
  obtain ⟨hbinding, hsame, hqueue, hreading⟩ := prune_eq binding.exchange s
  refine hold.concat_of_quiet hh rfl (fun d hd => by cases hd)
    ⟨hbinding, ?_, ?_, fun hbound => ?_⟩ fun h => ⟨hreading ▸ h, hqueue⟩
  · simp [Entry.isOutage, hsame, hgeneration]
  · simp [Entry.drops, hreading]
  · rw [hsame, hgeneration]
    refine hold.bound_current ?_
    unfold Memory.prune at hbound
    split at hbound
    · cases hbound
    · exact hbound

theorem Agrees.connect (ha : b.Agrees h) {binding : Binding}
    (hc : b.connect binding = .ok (n, b')) :
    n = h.bindings.length ∧ b'.Agrees (h ++ [⟨.connect binding, .opened n⟩]) := by
  have hsound := ha.sound.connect hc
  obtain ⟨hreachable, rfl, rfl⟩ := connect_eq_ok hc
  refine ⟨ha.length_eq, ?_⟩
  let e : Entry := ⟨.connect binding, .opened b.sessions.length⟩
  let new : Session := ⟨binding, b.generation, [], true, true⟩
  -- A session has been there before or is the new one.
  have hget : ∀ (m : Nat) (s' : Session),
      (b.sessions.map (prune binding.exchange) ++ [new])[m]? = some s' →
      (∃ s, b.sessions[m]? = some s ∧ s' = prune binding.exchange s) ∨
        m = h.bindings.length ∧ s' = new := by
    intro m s' hs'
    by_cases hm : m < b.sessions.length
    · rw [List.getElem?_append_left (by rw [List.length_map]; exact hm), List.getElem?_map] at hs'
      obtain ⟨s, hs, rfl⟩ := Option.map_eq_some_iff.1 hs'
      exact .inl ⟨s, hs, rfl⟩
    · rw [List.getElem?_append_right (by rw [List.length_map]; omega), List.length_map] at hs'
      have hlt := (List.getElem?_eq_some_iff.1 hs').1
      rw [List.length_singleton] at hlt
      have hm : m = b.sessions.length := by omega
      subst hm
      rw [Nat.sub_self] at hs'
      cases hs'
      exact .inr ⟨ha.length_eq, rfl⟩
  have hopened : (h ++ [e]).bindings = h.bindings ++ [binding] := bindings_concat h e
  constructor
  case sound => exact hsound
  case grounded => exact ha.grounded.concat (fun x hx => by cases hx) fun x hx => by cases hx
  case tagged =>
    refine ha.tagged.shrink rfl rfl ⟨[], ?_⟩ fun m s' hs' => ?_
    · have hpruned := queuedTags_map (fun s => (prune_eq binding.exchange s).2.2.1) b.sessions
      unfold queuedTags at hpruned ⊢
      rw [List.flatMap_append, hpruned]
      exact List.Perm.of_eq (List.append_nil _).symm
    · rcases hget m s' hs' with ⟨s, hs, rfl⟩ | ⟨rfl, rfl⟩
      · refine .inl ⟨s, hs, ?_⟩
        rw [(prune_eq _ s).2.2.1]
      · exact .inr ⟨ha.grounded.taken_of_le (Nat.le_refl _), rfl⟩
  case reachable_eq => rw [reachable_concat]; exact ha.reachable_eq
  case length_eq =>
    rw [hopened, List.length_append, List.length_append, List.length_map, ha.length_eq]
    rfl
  case tracks =>
    intro m s' hs'
    rcases hget m s' hs' with ⟨s, hs, rfl⟩ | ⟨rfl, rfl⟩
    · exact (ha.tracks m s hs).prune ha.grounded rfl
    · exact Tracks.opened ha.grounded _ binding _
  case offline =>
    intro hoffline
    rw [hreachable] at hoffline
    cases hoffline
  case published_eq => rw [List.countP_append]; exact ha.published_eq
  case acknowledged_eq => rw [List.countP_append]; exact ha.acknowledged_eq

/-! ## Reading -/

/-- The delivery only moves from the queue to what has been read. -/
theorem taken_append_of_next {d : Delivery} {rest : List Delivery} (hw : s.queue = d :: rest) :
    (h ++ [(⟨.next n, .found (.delivery d)⟩ : Entry)]).taken n ++ rest =
      h.taken n ++ s.queue := by
  rw [taken_concat, hw]
  simp [Entry.delivery?]

theorem Tracks.next (hold : b.Tracks h n s) (hh : Grounded h) (hreading : s.reading = true)
    {d : Delivery} {rest : List Delivery} (hw : s.queue = d :: rest)
    (hgeneration : b'.generation = b.generation) :
    b'.Tracks (h ++ [⟨.next n, .found (.delivery d)⟩]) n { s with queue := rest } := by
  have hwhole := taken_append_of_next (h := h) (n := n) hw
  have hdue : (h ++ [(⟨.next n, .found (.delivery d)⟩ : Entry)]).due n = h.due n := by
    rw [hh.due_concat hold.binding_eq, message?_of_unpublished rfl]
    split <;> exact List.append_nil _
  refine hold.concat ⟨rfl, ?_, ?_, hgeneration ▸ hold.bound_current⟩ (fun _ => ?_) ?_
  · simp [Entry.isOutage, hgeneration]
  · simp [Entry.drops]
  · rw [hdue, hwhole]
    exact hold.queue_eq hreading
  · rw [hdue, hold.queue_eq hreading, ← hwhole, List.map_append]
    exact List.prefix_append _ _

theorem Agrees.next (ha : b.Agrees h) {d : Delivery} (hd : b.next n = some (.delivery d, b')) :
    b'.Agrees (h ++ [⟨.next n, .found (.delivery d)⟩]) := by
  obtain ⟨rest, hw, rfl⟩ := next_eq_delivery hd
  obtain ⟨s, hs, hreading⟩ := reading_of_next hd
  rw [waiting_eq hs] at hw
  let e : Entry := ⟨.next n, .found (.delivery d)⟩
  let f : Session → Session := fun s => { s with queue := rest }
  have hget : ∀ (m : Nat) (s' : Session), (b.modify n f).sessions[m]? = some s' →
      ∃ s, b.sessions[m]? = some s ∧ s' = if n = m then f s else s := by
    intro m s' hs'
    unfold modify at hs'
    rw [List.getElem?_modify] at hs'
    obtain ⟨s, hs, rfl⟩ := Option.map_eq_some_iff.1 hs'
    exact ⟨s, hs, rfl⟩
  have htags : (tags (h ++ [e]) (b.modify n f)).Perm (tags h b) := by
    unfold tags
    rw [deliveries_concat, List.map_append, List.append_assoc]
    refine List.Perm.append_left _ (queuedTags_modify hs (f := f) ?_).symm
    rw [hw]
    rfl
  constructor
  case sound => exact ha.sound.modify fun s => ⟨rfl, fun hreading => ⟨hreading, rfl⟩⟩
  case grounded =>
    refine ha.grounded.concat (fun x hx => by cases hx) fun x hx => ?_
    cases hx
    exact ha.lt hs
  case tagged =>
    constructor
    · exact htags.nodup_iff.2 ha.tagged.nodup
    · exact fun t ht => ha.tagged.le t (htags.mem_iff.1 ht)
    · intro m s' hs'
      obtain ⟨t, ht, rfl⟩ := hget m s' hs'
      have hold := ha.tagged.increase m t ht
      by_cases hm : n = m
      · subst hm
        rw [hs] at ht
        cases ht
        rw [if_pos rfl, taken_append_of_next hw]
        exact hold
      · rw [if_neg hm, taken_concat_of_other (fun d hd => hm (by cases hd; rfl))]
        exact hold
  case reachable_eq => rw [reachable_concat]; exact ha.reachable_eq
  case length_eq =>
    rw [bindings_concat, List.length_append]
    exact (List.length_modify _ _ _).trans ha.length_eq
  case tracks =>
    intro m s' hs'
    obtain ⟨t, ht, rfl⟩ := hget m s' hs'
    have hold := ha.tracks m t ht
    by_cases hm : n = m
    · subst hm
      rw [hs] at ht
      cases ht
      rw [if_pos rfl]
      exact hold.next ha.grounded hreading hw rfl
    · rw [if_neg hm]
      refine hold.concat_of_quiet ha.grounded rfl (fun d hd => hm (by cases hd; rfl))
        ⟨rfl, ?_, ?_, hold.bound_current⟩ fun hreading => ⟨hreading, rfl⟩
      · simp [Entry.isOutage, modify]
      · simp [Entry.drops]
  case offline =>
    intro hoffline s' hs'
    obtain ⟨m, hm⟩ := List.mem_iff_getElem?.1 hs'
    obtain ⟨t, ht, rfl⟩ := hget m s' hm
    have := ha.offline hoffline t (List.mem_of_getElem? ht)
    split <;> exact this
  case published_eq => rw [List.countP_append]; exact ha.published_eq
  case acknowledged_eq => rw [List.countP_append]; exact ha.acknowledged_eq

/-! ## Publishing -/

theorem mem_tags (hs : b.sessions[n]? = some s) {d : Delivery} (hd : d ∈ h.taken n ++ s.queue) :
    d.tag ∈ tags h b := by
  unfold tags
  rcases List.mem_append.1 hd with hd | hd
  · obtain ⟨x, hx, rfl⟩ := List.mem_map.1 hd
    exact List.mem_append_left _ (List.mem_map_of_mem (List.mem_filter.1 hx).1)
  · exact List.mem_append_right _
      (List.mem_flatMap.2 ⟨s, List.mem_of_getElem? hs, List.mem_map_of_mem hd⟩)

theorem Tagged.publish (ht : Tagged h b) {sender : Binding} {payload : Bytes}
    (he : e.delivery? = none)
    (hlast : b'.lastTag = (distribute sender payload b.lastTag b.sessions).1)
    (hsessions : b'.sessions = (distribute sender payload b.lastTag b.sessions).2) :
    Tagged (h ++ [e]) b' := by
  obtain ⟨given, hperm, hnodup, hgiven⟩ := queuedTags_distribute sender payload b.sessions b.lastTag
  obtain ⟨hle, hlength, hpassed⟩ := distribute_spec sender payload b.sessions b.lastTag
  rw [← hlast] at hgiven hle hpassed
  rw [← hsessions] at hperm hlength hpassed
  have htags : (tags (h ++ [e]) b').Perm (tags h b ++ given) := by
    unfold tags
    rw [deliveries_of_undelivered he, List.append_assoc]
    exact hperm.append_left _
  constructor
  case nodup =>
    rw [htags.nodup_iff, List.nodup_append]
    refine ⟨ht.nodup, hnodup, fun t htag t' htag' heq => ?_⟩
    have := ht.le t htag
    have := (hgiven t' htag').1
    omega
  case le =>
    intro t hmem
    rcases List.mem_append.1 (htags.mem_iff.1 hmem) with hmem | hmem
    · exact Nat.le_trans (ht.le t hmem) hle
    · exact (hgiven t hmem).2
  case increase =>
    intro n s' hs'
    have hn := (List.getElem?_eq_some_iff.1 hs').1
    rw [hlength] at hn
    have hs := List.getElem?_eq_getElem hn
    obtain ⟨t, ht', hst⟩ := hpassed n _ hs
    rw [hs'] at ht'
    cases ht'
    have hold := ht.increase n _ hs
    rw [taken_of_undelivered he]
    cases hst with
    | queued tag hfirst _ _ _ =>
      rw [← List.append_assoc, List.map_append, List.pairwise_append]
      refine ⟨hold, List.pairwise_singleton _ _, fun t hmem t' hmem' => ?_⟩
      obtain ⟨d, hd, rfl⟩ := List.mem_map.1 hmem
      have hd := ht.le _ (mem_tags hs hd)
      rw [List.mem_singleton.1 hmem']
      exact Nat.lt_of_le_of_lt hd hfirst
    | unbound _ => exact hold
    | elsewhere _ => exact hold

/-- What a session is due once a message has been published. -/
theorem Agrees.due_publish (ha : b.Agrees h) (hs : b.sessions[n]? = some s)
    (payload : Bytes) {t : Session} (ht : b.sessions[m]? = some t) :
    (h ++ [(⟨.publish n payload, .done⟩ : Entry)]).due m = h.due m ++
      if h.lost m = true then [] else
        (if s.binding.exchange = t.binding.exchange then
          some (s.binding.routingKey, payload) else none).toList := by
  let e : Entry := ⟨.publish n payload, .done⟩
  have hmessage : ∀ exchange, message? (h ++ [e]).bindings exchange e =
      if s.binding.exchange = exchange then some (s.binding.routingKey, payload) else none := by
    intro exchange
    unfold message?
    rw [bindings_concat, show e.opened? = none from rfl, Option.toList_none, List.append_nil]
    show (((h.bindings[n]?).filter _).bind _ : Option (String × Bytes)) = _
    rw [(ha.tracks n s hs).binding_eq, Option.filter_some]
    by_cases hexchange : s.binding.exchange = exchange <;> simp [hexchange]
  have hdue := ha.grounded.due_concat (ha.tracks m t ht).binding_eq e
  rw [hmessage] at hdue
  exact hdue

theorem Agrees.tracks_publish (ha : b.Agrees h) (hs : b.sessions[n]? = some s) {payload : Bytes}
    {t t' : Session} (ht : b.sessions[m]? = some t) {first last : Nat}
    (hpassed : Passed s.binding payload first last t t')
    (hgeneration : b'.generation = b.generation) :
    b'.Tracks (h ++ [⟨.publish n payload, .done⟩]) m t' := by
  have hold := ha.tracks m t ht
  have hdue := ha.due_publish hs payload ht
  let e : Entry := ⟨.publish n payload, .done⟩
  have htaken : (h ++ [e]).taken m = h.taken m := taken_of_undelivered rfl m
  have hahead : ((h ++ [e]).taken m).map Delivery.message <+: (h ++ [e]).due m := by
    rw [hdue, htaken]
    exact hold.taken_prefix.trans (List.prefix_append _ _)
  cases hpassed with
  | queued tag _ _ hto hreading =>
    obtain ⟨hbound, hexchange⟩ := hto
    have hlost : h.lost m ≠ true := fun hlost =>
      hold.lost_iff.1 hlost (hold.bound_current hbound)
    refine hold.concat ⟨rfl, ?_, ?_, hgeneration ▸ hold.bound_current⟩ (fun _ => ?_) hahead
    · simp [Entry.isOutage, hgeneration]
    · simp [Entry.drops]
    · rw [hdue, if_neg hlost, if_pos hexchange.symm, htaken, hold.queue_eq hreading]
      simp [Delivery.message]
  | unbound hnone =>
    refine hold.concat ⟨rfl, ?_, ?_, fun hbound => by cases hbound⟩ (fun hreading => ?_) hahead
    · simp [Entry.isOutage, hgeneration]
    · simp [Entry.drops]
    · change t.reading = true at hreading
      rw [hnone] at hreading
      cases hreading
  | elsewhere hnot =>
    refine hold.concat ⟨rfl, ?_, ?_, hgeneration ▸ hold.bound_current⟩ (fun hreading => ?_) hahead
    · simp [Entry.isOutage, hgeneration]
    · simp [Entry.drops]
    · -- A session with a reader that no outage has ended is bound, so it is on another exchange.
      have hother : h.lost m ≠ true → s.binding.exchange ≠ t.binding.exchange := by
        intro hlost hexchange
        refine hnot ⟨?_, hexchange.symm⟩
        refine ha.sound.bound t (List.mem_of_getElem? ht) hreading ?_
        by_contra hgeneration
        exact hlost (hold.lost_iff.2 hgeneration)
      rw [hdue, htaken, hold.queue_eq hreading]
      by_cases hlost : h.lost m = true
      · rw [if_pos hlost, List.append_nil]
      · rw [if_neg hlost, if_neg (hother hlost)]
        exact List.append_nil _

theorem Agrees.publish (ha : b.Agrees h) {payload : Bytes}
    (hp : b.publish n payload = some (.ok b')) :
    b'.Agrees (h ++ [⟨.publish n payload, .done⟩]) := by
  have hsound := ha.sound.publish hp
  obtain ⟨s, hs, -, rfl⟩ := publish_eq_ok hp
  obtain ⟨-, hlength, hpassed⟩ := distribute_spec s.binding payload b.sessions b.lastTag
  -- Each session stands where it has stood.
  have hget : ∀ (m : Nat) (t' : Session),
      (distribute s.binding payload b.lastTag b.sessions).2[m]? = some t' →
      ∃ t, b.sessions[m]? = some t ∧ Passed s.binding payload b.lastTag
        (distribute s.binding payload b.lastTag b.sessions).1 t t' := by
    intro m t' ht'
    have hm := (List.getElem?_eq_some_iff.1 ht').1
    rw [hlength] at hm
    have ht := List.getElem?_eq_getElem hm
    obtain ⟨u, hu, htu⟩ := hpassed m _ ht
    rw [ht'] at hu
    cases hu
    exact ⟨_, ht, htu⟩
  constructor
  case sound => exact hsound
  case grounded =>
    refine ha.grounded.concat (fun x hx => ?_) fun x hx => by cases hx
    cases hx
    exact ha.lt hs
  case tagged => exact ha.tagged.publish rfl rfl rfl
  case reachable_eq => rw [reachable_concat]; exact ha.reachable_eq
  case length_eq =>
    rw [bindings_concat, List.length_append]
    exact hlength.trans ha.length_eq
  case tracks =>
    intro m t' ht'
    obtain ⟨t, ht, htt'⟩ := hget m t' ht'
    exact ha.tracks_publish hs ht htt' rfl
  case offline =>
    intro hoffline t' ht'
    obtain ⟨m, hm⟩ := List.mem_iff_getElem?.1 ht'
    obtain ⟨t, ht, htt'⟩ := hget m t' hm
    have := ha.offline hoffline t (List.mem_of_getElem? ht)
    cases htt' <;> exact this
  case published_eq => rw [List.countP_append, ← ha.published_eq]; rfl
  case acknowledged_eq => rw [List.countP_append]; exact ha.acknowledged_eq

end Memory

end EvictionBus.Broker

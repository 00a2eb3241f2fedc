import Mathlib.Data.List.Infix
import EvictionBus.Proofs.Broker.Cluster

/-!
# What a link does at a broker in memory

`Moved` lists everything that a move of a supervisor can do; what is proved of all moves is proved
case by case from it.  A supervisor whose session stays live goes on reading: what it does then is
said by equations.
-/

namespace EvictionBus

/-! ## What one owner leaves alone -/

namespace Broker.Memory

/-- Everything between two states of a broker has been done with sessions of one owner, or by
connecting once more. -/
structure Within (own : Binding) (b b' : Memory) : Prop where
  binding : ∀ n other, b.binding? n = some other → b'.binding? n = some other
  waiting : ∀ n other, b.binding? n = some other → other ≠ own → b'.waiting n = b.waiting n
  reader : ∀ n other, b.binding? n = some other → other ≠ own → b'.hasReader n = b.hasReader n
  live : ∀ n, b.Live n → b'.Live n
  shrinks : ∀ n, b'.waiting n <:+ b.waiting n
  lastTag_eq : b'.lastTag = b.lastTag
  published_eq : b'.published = b.published
  sound : b.Sound → b'.Sound

variable {own : Binding} {b b' b'' : Memory} {n m : Nat}

theorem Within.refl (own : Binding) (b : Memory) : b.Within own b :=
  ⟨fun _ _ h => h, fun _ _ _ _ => rfl, fun _ _ _ _ => rfl, fun _ h => h,
    fun _ => List.suffix_refl _, rfl, rfl, fun h => h⟩

theorem Within.trans (h : b.Within own b') (h' : b'.Within own b'') : b.Within own b'' where
  binding n other hn := h'.binding n other (h.binding n other hn)
  waiting n other hn hne := by
    rw [h'.waiting n other (h.binding n other hn) hne, h.waiting n other hn hne]
  reader n other hn hne := by
    rw [h'.reader n other (h.binding n other hn) hne, h.reader n other hn hne]
  live n hn := h'.live n (h.live n hn)
  shrinks n := (h'.shrinks n).trans (h.shrinks n)
  lastTag_eq := h'.lastTag_eq.trans h.lastTag_eq
  published_eq := h'.published_eq.trans h.published_eq
  sound hs := h'.sound (h.sound hs)

theorem lt_of_binding? {other : Binding} (h : b.binding? n = some other) :
    n < b.sessions.length := by
  obtain ⟨s, hs, -⟩ := Option.map_eq_some_iff.1 h
  exact (List.getElem?_eq_some_iff.1 hs).1

theorem waiting_of_length_le (h : b.sessions.length ≤ n) : b.waiting n = [] := by
  rw [Memory.waiting, List.getElem?_eq_none_iff.2 h]
  rfl

theorem within_connect (h : b.connect own = .ok (n, b')) : b.Within own b' where
  binding m other hm := by rw [(observed_connect h (lt_of_binding? hm)).1, hm]
  waiting m other hm _ := (observed_connect h (lt_of_binding? hm)).2.1
  reader m other hm _ := (observed_connect h (lt_of_binding? hm)).2.2
  live m hm := live_connect h hm
  shrinks m := by
    by_cases hm : m < b.sessions.length
    · rw [(observed_connect h hm).2.1]
    · -- Only the new session is there beside the old ones, and nothing waits for it.
      obtain ⟨-, rfl, hb⟩ := connect_eq_ok h
      by_cases hnew : m = b.sessions.length
      · rw [hnew, (observed_connect_new h).2.1]
        exact List.nil_suffix
      · rw [waiting_of_length_le]
        · exact List.nil_suffix
        · rw [hb]
          simp only [List.length_append, List.length_map, List.length_singleton]
          omega
  lastTag_eq := by
    obtain ⟨-, -, rfl⟩ := connect_eq_ok h
    rfl
  published_eq := by
    obtain ⟨-, -, rfl⟩ := connect_eq_ok h
    rfl
  sound hs := hs.connect h

theorem ne_of_binding? {other : Binding} (hn : b.binding? n = some own)
    (hm : b.binding? m = some other) (hne : other ≠ own) : n ≠ m := by
  rintro rfl
  rw [hn] at hm
  exact hne (Option.some.inj hm).symm

theorem within_modify {f : Session → Session} (hn : b.binding? n = some own)
    (hbinding : ∀ s, (f s).binding = s.binding)
    (hf : ∀ s, (f s).generation = s.generation ∧
      ((f s).reading = true → s.reading = true ∧ (f s).bound = s.bound))
    (hqueue : (b.modify n f).waiting n <:+ b.waiting n) : b.Within own (b.modify n f) where
  binding m other hm := by rw [binding?_modify hbinding, hm]
  waiting m other hm hne := (observed_modify (ne_of_binding? hn hm hne)).2.1
  reader m other hm hne := (observed_modify (ne_of_binding? hn hm hne)).2.2
  live m hm := (live_modify fun s => (hf s).1).2 hm
  shrinks m := by
    by_cases hnm : n = m
    · rw [← hnm]
      exact hqueue
    · rw [(observed_modify hnm).2.1]
  lastTag_eq := rfl
  published_eq := rfl
  sound hs := hs.modify hf

theorem within_dropReader (hn : b.binding? n = some own) : b.Within own (b.dropReader n) := by
  refine within_modify hn (fun _ => rfl) (fun _ => ⟨rfl, nofun⟩) ?_
  have hnone := waiting_dropReader b n
  unfold dropReader at hnone
  rw [hnone]
  exact List.nil_suffix

theorem within_take {d : Delivery} {rest : List Delivery} (hn : b.binding? n = some own)
    (hw : b.waiting n = d :: rest) :
    b.Within own (b.modify n fun s => { s with queue := rest }) := by
  refine within_modify hn (fun _ => rfl) (fun _ => ⟨rfl, fun h => ⟨h, rfl⟩⟩) ?_
  obtain ⟨s, hs, -⟩ := Option.map_eq_some_iff.1 hn
  rw [waiting_modify_queue hs, hw]
  exact List.suffix_cons d rest

theorem within_acknowledged (own : Binding) (b : Memory) (count : Nat) :
    b.Within own { b with acknowledged := count } :=
  ⟨fun _ _ h => h, fun _ _ _ _ => rfl, fun _ _ _ _ => rfl, fun _ h => h,
    fun _ => List.suffix_refl _, rfl, rfl, fun h => ⟨h.generation_le, h.bound⟩⟩

end Broker.Memory

namespace BrokerLink

open Broker

variable {l l' : BrokerLink} {t t' : Traffic} {b b' : Memory} {r : Backend} {backoff : Backoff}
  {now : Nat}

/-- What a move does at a time: the delivery that it takes in, the link, the traffic and the broker
after it. -/
inductive Moved (now : Nat) (l : BrokerLink) (t : Traffic) (b : Memory) :
    Option Delivery → BrokerLink → Traffic → Memory → Prop where
  | take {d : Delivery} {rest : List Delivery} (hsupervisor : l.supervisor = .consuming)
      (hwaiting : b.waiting l.session = d :: rest) :
      Moved now l t b (some d) { l with supervisor := .acknowledging d.tag } (l.takeIn t d)
        (b.modify l.session fun s => { s with queue := rest })
  | acknowledge {tag : Nat} (hsupervisor : l.supervisor = .acknowledging tag) (count : Nat) :
      Moved now l t b none { l with supervisor := .consuming } t { b with acknowledged := count }
  | find {call due session : Nat} {found : Memory}
      (hconnect : b.connect l.binding = .ok (session, found)) (hdue : due ≤ now) :
      Moved now l t b none { l with supervisor := .calling call due (.ok session) } t found
  | fail (call due : Nat) (e : TransportError) :
      Moved now l t b none { l with supervisor := .calling call due (.error e) } t b
  | wait (call due : Nat) : Moved now l t b none { l with supervisor := .waiting call due } t b
  | replace {call due session : Nat}
      (hsupervisor : l.supervisor = .calling call due (.ok session)) :
      Moved now l t b none ⟨l.binding, session, some session, .consuming⟩ t (b.dropReader l.session)
  | giveUp :
      Moved now l t b none { l with publisher := none, supervisor := .gaveUp } t
        (b.dropReader l.session)

theorem moved_call (l : BrokerLink) (t : Traffic) (b : Memory) (now number : Nat) :
    ∃ b', (l.call now (Backend.memory b) number).2 = .memory b' ∧
      Moved now l t b none (l.call now (Backend.memory b) number).1 t b' := by
  cases hc : b.connect l.binding with
  | ok p =>
    simp only [call, Connector.connect, Backend.connect, hc]
    exact ⟨p.2, rfl, .find hc (Nat.le_of_eq (Clock.due_of_le (Nat.zero_le _) now))⟩
  | error e =>
    simp only [call, Connector.connect, Backend.connect, hc]
    exact ⟨b, rfl, .fail _ _ e⟩

theorem moved_of_consuming (hs : l.supervisor = .consuming)
    (h : l.move backoff now t (Backend.memory b) = some (l', t', r)) :
    ∃ b', r = .memory b' ∧ Moved now l t b (l.delivery? (Backend.memory b)) l' t' b' := by
  unfold move at h
  unfold delivery?
  simp only [hs, Connector.next, Backend.next] at h ⊢
  cases hn : b.next l.session with
  | none =>
    simp only [hn] at h ⊢
    cases h
    exact moved_call l t b now 1
  | some p =>
    obtain ⟨found, b₁⟩ := p
    simp only [hn] at h ⊢
    -- Only a delivery changes the broker; without one the link goes to look for a session.
    cases found with
    | delivery d =>
      obtain ⟨rest, hwaiting, rfl⟩ := Memory.next_eq_delivery hn
      cases h
      exact ⟨_, rfl, .take hs hwaiting⟩
    | pending => cases h
    | ended =>
      cases Memory.next_eq_other hn nofun
      cases h
      exact moved_call l t b now 1
    | failed e =>
      cases Memory.next_eq_other hn nofun
      cases h
      exact moved_call l t b now 1

theorem moved_of_acknowledging {tag : Nat} (hs : l.supervisor = .acknowledging tag)
    (h : l.move backoff now t (Backend.memory b) = some (l', t', r)) :
    ∃ b', r = .memory b' ∧ Moved now l t b (l.delivery? (Backend.memory b)) l' t' b' := by
  unfold move at h
  unfold delivery?
  simp only [hs, Connector.acknowledge, Backend.acknowledge] at h ⊢
  cases ha : b.acknowledge l.session with
  | none =>
    simp only [ha] at h
    cases h
    exact ⟨b, rfl, .acknowledge hs b.acknowledged⟩
  | some result =>
    cases result with
    | ok b₁ =>
      simp only [ha, Except.map] at h
      cases h
      exact ⟨b₁, rfl, Memory.acknowledge_eq_ok ha ▸ .acknowledge hs _⟩
    | error e =>
      simp only [ha, Except.map] at h
      cases h
      exact moved_call l t b now 1

theorem moved_of_calling {number due : Nat} {result : Except TransportError Nat}
    (hs : l.supervisor = .calling number due result)
    (h : l.move backoff now t (Backend.memory b) = some (l', t', r)) :
    ∃ b', r = .memory b' ∧ Moved now l t b (l.delivery? (Backend.memory b)) l' t' b' := by
  unfold move at h
  unfold delivery?
  simp only [hs] at h ⊢
  split at h
  case isFalse => cases h
  case isTrue =>
    cases result with
    | ok session =>
      cases h
      refine ⟨b.dropReader l.session, ?_, .replace hs⟩
      unfold replaceSession adopt
      cases l.publisher <;> rfl
    | error e =>
      -- Either another attempt is allowed, or this was the last one.
      simp only at h
      split at h
      · cases h
        exact ⟨b, rfl, .wait _ _⟩
      · cases h
        exact ⟨_, rfl, .giveUp⟩

theorem moved_of_move (h : l.move backoff now t (Backend.memory b) = some (l', t', r)) :
    ∃ b', r = .memory b' ∧ Moved now l t b (l.delivery? (Backend.memory b)) l' t' b' := by
  cases hs : l.supervisor with
  | consuming => exact moved_of_consuming hs h
  | acknowledging tag => exact moved_of_acknowledging hs h
  | calling number due result => exact moved_of_calling hs h
  | waiting number due =>
    unfold move at h
    unfold delivery?
    simp only [hs] at h ⊢
    split at h
    case isFalse => cases h
    case isTrue =>
      cases h
      exact moved_call l t b now (number + 1)
  | gaveUp =>
    unfold move at h
    simp only [hs] at h
    cases h
  | stopped =>
    unfold move at h
    simp only [hs] at h
    cases h

theorem Moved.traffic_eq {taken : Option Delivery} (h : Moved now l t b taken l' t' b') :
    t' = (taken.map (l.takeIn t)).getD t := by
  cases h <;> rfl

theorem Moved.within {taken : Option Delivery} (h : Moved now l t b taken l' t' b')
    (hsession : b.binding? l.session = some l.binding) : b.Within l.binding b' := by
  cases h with
  | take _ hwaiting => exact Memory.within_take hsession hwaiting
  | acknowledge _ count => exact Memory.within_acknowledged _ b count
  | find hconnect _ => exact Memory.within_connect hconnect
  | fail => exact .refl _ b
  | wait => exact .refl _ b
  | replace => exact Memory.within_dropReader hsession
  | giveUp => exact Memory.within_dropReader hsession

theorem within_close (hsession : b.binding? l.session = some l.binding)
    (hfound : ∀ call due session, l.supervisor = .calling call due (.ok session) →
      b.binding? session = some l.binding) :
    ∃ b', (l.close (Backend.memory b)).2 = .memory b' ∧ b.Within l.binding b' := by
  -- The reader goes in every case, and the session that a call has just found goes with it.
  have hdrop : ∀ {b₁ : Memory}, b.Within l.binding b₁ →
      b.Within l.binding (b₁.dropReader l.session) := fun h =>
    h.trans (Memory.within_dropReader (h.binding _ _ hsession))
  unfold close
  split
  case h_1 call due session hs =>
    refine ⟨(b.dropReader session).dropReader l.session, ?_,
      hdrop (Memory.within_dropReader (hfound _ _ _ hs))⟩
    cases l.publisher <;> rfl
  case h_2 =>
    refine ⟨b.dropReader l.session, ?_, hdrop (.refl _ b)⟩
    cases l.publisher <;> rfl

/-! ## The sessions of a link -/

section Sound

variable {own : Binding} {taken : Option Delivery}

/-- What holds of the link of a node at any time: the sessions that it refers to are its own, the
one that it reads from or will read from has a reader, and a search finds a session of its own. -/
structure Sound (l : BrokerLink) (own : Binding) (b : Memory) (now : Nat) : Prop where
  binding_eq : l.binding = own
  session : b.binding? l.session = some own
  publisher : ∀ n, l.publisher = some n → b.binding? n = some own
  current : ∀ n, l.current? = some n → b.binding? n = some own ∧ b.hasReader n = true
  renews : ∀ call due n, l.supervisor = .calling call due (.ok n) → n ≠ l.session ∧ due ≤ now

theorem Sound.of_within {other : Binding} (h : l.Sound own b now) (hb : b.Within other b')
    (hne : own ≠ other) : l.Sound own b' now where
  binding_eq := h.binding_eq
  session := hb.binding _ _ h.session
  publisher n hn := hb.binding _ _ (h.publisher n hn)
  current n hn := by
    obtain ⟨hbinding, hreader⟩ := h.current n hn
    exact ⟨hb.binding _ _ hbinding, by rw [hb.reader n _ hbinding hne, hreader]⟩
  renews := h.renews

theorem Sound.congr (h : l.Sound own b now) (hbinding : ∀ n, b'.binding? n = b.binding? n)
    (hreader : ∀ n, b'.hasReader n = b.hasReader n) : l.Sound own b' now where
  binding_eq := h.binding_eq
  session := by rw [hbinding, h.session]
  publisher n hn := by rw [hbinding, h.publisher n hn]
  current n hn := by
    rw [hbinding, hreader]
    exact h.current n hn
  renews := h.renews

theorem Sound.later {now' : Nat} (h : l.Sound own b now) (hle : now ≤ now') :
    l.Sound own b now' where
  binding_eq := h.binding_eq
  session := h.session
  publisher := h.publisher
  current := h.current
  renews call due n hn := ⟨(h.renews call due n hn).1, (h.renews call due n hn).2.trans hle⟩

theorem hasReader_dropReader {n m : Nat} (hn : n ≠ m) :
    (b.dropReader m).hasReader n = b.hasReader n :=
  (Memory.observed_modify (Ne.symm hn)).2.2

theorem Moved.sound (hm : Moved now l t b taken l' t' b') (h : l.Sound own b now) :
    l'.Sound own b' now := by
  have hb := hm.within (by rw [h.binding_eq]; exact h.session)
  rw [h.binding_eq] at hb
  have hsession := hb.binding _ _ h.session
  have hpublisher : ∀ n, l.publisher = some n → b'.binding? n = some own := fun n hn =>
    hb.binding _ _ (h.publisher n hn)
  -- The sessions stay the node's own in every case; what differs is which of them it reads from.
  cases hm with
  | take hs hwaiting =>
    refine ⟨h.binding_eq, hsession, hpublisher, ?_, nofun⟩
    intro n hn
    cases hn
    refine ⟨hsession, ?_⟩
    rw [Memory.hasReader_modify_queue]
    exact (h.current _ (by rw [current?, hs])).2
  | acknowledge hs count =>
    refine ⟨h.binding_eq, hsession, hpublisher, ?_, nofun⟩
    intro n hn
    cases hn
    exact ⟨hsession, (h.current _ (by rw [current?, hs])).2⟩
  | @find call due session found hconnect hdue =>
    obtain ⟨hbinding, -, hreader, -⟩ := Memory.observed_connect_new hconnect
    rw [h.binding_eq] at hbinding
    refine ⟨h.binding_eq, hsession, hpublisher, ?_, ?_⟩
    · intro n hn
      cases hn
      exact ⟨hbinding, hreader⟩
    · intro _ _ n hn
      cases hn
      -- The broker numbers its sessions in order.
      have hlt := Memory.lt_of_binding? h.session
      obtain ⟨-, rfl, -⟩ := Memory.connect_eq_ok hconnect
      exact ⟨Nat.ne_of_gt hlt, hdue⟩
  | fail call due e => exact ⟨h.binding_eq, hsession, hpublisher, nofun, nofun⟩
  | wait call due => exact ⟨h.binding_eq, hsession, hpublisher, nofun, nofun⟩
  | @replace call due session hs =>
    obtain ⟨hbinding, hreader⟩ := h.current session (by rw [current?, hs])
    refine ⟨h.binding_eq, hb.binding _ _ hbinding, ?_, ?_, nofun⟩
    · intro n hn
      cases hn
      exact hb.binding _ _ hbinding
    · intro n hn
      cases hn
      refine ⟨hb.binding _ _ hbinding, ?_⟩
      rw [hasReader_dropReader (h.renews _ _ _ hs).1, hreader]
  | giveUp => exact ⟨h.binding_eq, hsession, nofun, nofun, nofun⟩

/-- What a move leaves waiting, after what it takes in. -/
theorem Moved.waiting (hm : Moved now l t b taken l' t' b') (h : l.Sound own b now) :
    (taken.toList ++ l'.waiting b').Sublist (l.waiting b) := by
  unfold BrokerLink.waiting
  cases hm with
  | @take d rest hs hwaiting =>
    obtain ⟨s, hsession, -⟩ := Option.map_eq_some_iff.1 h.session
    have hrest := Memory.waiting_modify_queue hsession rest
    simp only [current?, hs, Option.map_some, Option.getD_some, hwaiting, hrest]
    exact List.Sublist.refl _
  | acknowledge hs count =>
    simp only [current?, hs]
    exact List.Sublist.refl _
  | find hconnect _ =>
    obtain ⟨-, hnone, -⟩ := Memory.observed_connect_new hconnect
    simp only [current?, Option.map_some, Option.getD_some, hnone]
    -- A session just opened holds nothing, and without a session nothing counts as waiting.
    exact List.nil_sublist _
  | fail => exact List.nil_sublist _
  | wait => exact List.nil_sublist _
  | @replace call due session hs =>
    -- The new session is not the one that loses its reader.
    have hsame := (Memory.observed_modify (b := b)
      (f := fun s => { s with queue := [], reading := false })
      (Ne.symm (h.renews _ _ _ hs).1)).2.1
    simp only [current?, hs, Option.map_some, Option.getD_some]
    unfold Memory.dropReader
    rw [hsame]
    exact List.Sublist.refl _
  | giveUp => exact List.nil_sublist _

theorem Sound.waiting_of_within {other : Binding} (h : l.Sound own b now) (hb : b.Within other b')
    (hne : own ≠ other) : l.waiting b' = l.waiting b := by
  unfold BrokerLink.waiting
  cases hc : l.current? with
  | none => rfl
  | some n =>
    rw [Option.map_some, Option.map_some, Option.getD_some, Option.getD_some]
    exact hb.waiting n _ (h.current n hc).1 hne

end Sound

end BrokerLink

end EvictionBus

import Mathlib.Data.List.TakeWhile
import EvictionBus.Proofs.Relay.Starts

/-!
# The answer to a greeting

The relay adds a node to its table as soon as it accepts the connection, and the welcome goes
through the same queue as the evictions of the others.  So the welcome comes first exactly if
nothing has been relayed to the node before its greeting was read.  A node that reads an eviction
instead gives up.
-/

namespace EvictionBus.Relay

open State Client

/-! ## The first frame of a queue -/

/-- The evictions that are offered to a peer before the first frame of its own is acted on. -/
def earlyOffers (rs : List Reading) (key : Nat) : List Reading :=
  (rs.takeWhile (·.sender ≠ key)).filter fun r => (r.offer? key).isSome

theorem Between.gone_of_refuses {s t : State} {rs : List Reading} (h : Between s rs t)
    (key : Nat) : rs.Pairwise fun r r' => r.refuses key = true → r'.before.Gone key := by
  refine h.order.imp_of_mem fun {r r'} hr _ hfollows hrefuses => ?_
  -- Who refuses a frame is dropped for it before the next one is acted on.
  have hle := (r.follows_after (h.sound hr)).lastKey_le
  have hgone := (r.answered key).gone (h.sound hr) hle hrefuses
  exact hgone.follows hfollows

theorem Reading.accepted?_eq_none_of_gone {r : Reading} {key : Nat} (h : r.before.Gone key) :
    r.accepted? key = none := by
  cases ha : r.accepted? key with
  | none => rfl
  | some o =>
    have hm := member_of_offer? (offer?_of_accepted? ha)
    rw [h.not_member] at hm
    cases hm

theorem Reading.refuses_of_offer? {r : Reading} {key : Nat} (h : (r.offer? key).isSome = true)
    (ha : r.accepted? key = none) : r.refuses key = true := by
  unfold refuses
  rw [h, Bool.true_and, Bool.not_eq_true']
  cases htakes : r.before.takes key with
  | false => rfl
  | true =>
    obtain ⟨o, ho⟩ := Option.isSome_iff_exists.1 h
    rw [accepted?_eq_some.2 ⟨htakes, ho⟩] at ha
    cases ha

theorem sender_of_head?_dropWhile {rs : List Reading} {key : Nat} {r : Reading}
    (h : (rs.dropWhile (·.sender ≠ key)).head? = some r) : r.sender = key := by
  have := List.head?_dropWhile_not (·.sender ≠ key) rs
  rw [h] at this
  simpa using this

/-- What a peer takes before a frame of its own is acted on is an eviction offered to it. -/
theorem exists_early_of_accepted {rs : List Reading} {key : Nat} {o : Offer}
    (ho : o ∈ (rs.takeWhile (·.sender ≠ key)).filterMap (·.accepted? key)) :
    ∃ r ∈ earlyOffers rs key, o = ⟨r.sender, r.frame.bytes⟩ := by
  obtain ⟨r, hr, hro⟩ := List.mem_filterMap.1 ho
  have hoffer := Reading.offer?_of_accepted? hro
  have hne : r.sender ≠ key := by simpa using List.mem_takeWhile_imp hr
  obtain ⟨-, ⟨hsender, -⟩ | ⟨-, -, -, rfl⟩⟩ := Reading.offer?_eq_some_iff.1 hoffer
  · exact absurd hsender hne
  · exact ⟨r, List.mem_filter.2 ⟨hr, by rw [hoffer]; rfl⟩, rfl⟩

/-- What a peer takes from its greeting on starts with the welcome. -/
theorem head?_accepted_greeting {s : State} {r : Reading} {rest : List Reading} {key : Nat}
    (hgone : (r :: rest).Pairwise fun r r' => r.refuses key = true → r'.before.Gone key)
    (hr : r.Sound s) (hsender : r.sender = key) (hop : r.frame.header.op = .hello) {o : Offer}
    (ho : ((r :: rest).filterMap (·.accepted? key)).head? = some o) : o = ⟨key, s.welcome⟩ := by
  have hwelcome : r.before.welcome = s.welcome := by
    unfold State.welcome
    rw [hr.identity_eq]
  have hoffer : r.offer? key = some ⟨key, s.welcome⟩ :=
    Reading.offer?_eq_some_iff.2 ⟨hsender ▸ hr.member, .inl ⟨hsender, hop, by rw [hwelcome]⟩⟩
  cases htakes : r.before.takes key with
  | true =>
    have haccepted : r.accepted? key = some ⟨key, s.welcome⟩ :=
      Reading.accepted?_eq_some.2 ⟨htakes, hoffer⟩
    rw [List.filterMap_cons_some (f := fun r => Reading.accepted? r key) haccepted] at ho
    exact (Option.some.inj ho).symm
  | false =>
    -- The peer is dropped for its greeting, and takes nothing.
    have hnone : (r :: rest).filterMap (·.accepted? key) = [] := by
      rw [List.filterMap_eq_nil_iff]
      intro r' hr'
      rcases List.mem_cons.1 hr' with rfl | hr'
      · unfold Reading.accepted?
        rw [if_neg (by rw [htakes]; simp)]
      · have hrefuses : r.refuses key = true := by
          simp [Reading.refuses, hoffer, htakes]
        exact Reading.accepted?_eq_none_of_gone ((List.pairwise_cons.1 hgone).1 r' hr' hrefuses)
    rw [hnone] at ho
    cases ho

/-- The first frame that a peer takes is the welcome if no eviction has been offered to it before
its greeting, and otherwise one of those evictions. -/
theorem head?_accepted {s t : State} {rs : List Reading} {key : Nat} (h : Between s rs t)
    (hrs : ∀ r ∈ rs, r.Sound s)
    (hhello : ∀ r, (rs.dropWhile (·.sender ≠ key)).head? = some r → r.frame.header.op = .hello)
    {o : Offer} (ho : (rs.filterMap (·.accepted? key)).head? = some o) :
    earlyOffers rs key = [] ∧ o = ⟨key, s.welcome⟩ ∨
      ∃ r ∈ earlyOffers rs key, o = ⟨r.sender, r.frame.bytes⟩ := by
  have hgone := h.gone_of_refuses key
  -- The frames before the greeting, and from the greeting on.
  rw [← List.takeWhile_append_dropWhile (p := (·.sender ≠ key)) (l := rs)] at hgone ho
  obtain ⟨hbefore, hafter, hcross⟩ := List.pairwise_append.1 hgone
  rw [List.filterMap_append] at ho
  cases hfirst : (rs.takeWhile (·.sender ≠ key)).filterMap (·.accepted? key) with
  | cons o' rest =>
    refine .inr (exists_early_of_accepted ?_)
    rw [hfirst] at ho ⊢
    cases ho
    exact List.mem_cons_self
  | nil =>
    rw [hfirst, List.nil_append] at ho
    cases hrest : rs.dropWhile (·.sender ≠ key) with
    | nil =>
      rw [hrest] at ho
      cases ho
    | cons r rest =>
      have hhead : (rs.dropWhile (·.sender ≠ key)).head? = some r := by rw [hrest]; rfl
      have hsender := sender_of_head?_dropWhile hhead
      have hr : r.Sound s := hrs r ((List.dropWhile_sublist _).subset (by
        rw [hrest]
        exact List.mem_cons_self))
      rw [hrest] at ho hafter hcross
      refine .inl ⟨?_, head?_accepted_greeting hafter hr hsender (hhello r hhead) ho⟩
      -- Had an eviction been offered before, the peer would have been dropped for it.
      unfold earlyOffers
      rw [List.filter_eq_nil_iff]
      intro r' hr' hoffered
      have hnone := List.filterMap_eq_nil_iff.1 hfirst r' hr'
      have hnot := (hcross r' hr' r List.mem_cons_self
        (Reading.refuses_of_offer? hoffered hnone)).not_member
      rw [← hsender, hr.member] at hnot
      cases hnot

/-! ## The first frame for a node -/

namespace Cluster

variable {ι : Type} {u : Setup ι} {c : Cluster ι}

/-- The evictions that the relay has offered to a peer before the greeting of the peer. -/
def early (u : Setup ι) (c : Cluster ι) (key : Nat) : List Reading :=
  earlyOffers (c.readings u) key

/-- A frame has been offered to a peer when its queue was full. -/
def Overflows (u : Setup ι) (c : Cluster ι) (key : Nat) : Prop :=
  ∃ r ∈ c.readings u, (r.offer? key).isSome = true ∧
    (r.before.waiting key).length = max 1 u.config.queueDepth

/-- Nothing is on its way on a connection. -/
def Quiet (u : Setup ι) (c : Cluster ι) (w : Wire) : Prop :=
  w.unsent = [] ∧ w.up = [] ∧ w.writing = [] ∧ w.down = [] ∧ (c.relay u).waiting w.key = []

theorem Coherent.first_own_is_hello (h : c.Coherent u) {i : ι} {w : Wire}
    (hw : (c.client i).wire = some w) {r : Reading}
    (hr : ((c.readings u).dropWhile (·.sender ≠ w.key)).head? = some r) :
    r.frame.header.op = .hello := by
  have hpre := h.frames_prefix hw
  have hown := sender_of_head?_dropWhile hr
  obtain ⟨rest, hrest⟩ := List.head?_eq_some_iff.1 hr
  have hmem : r ∈ c.readings u := (List.dropWhile_sublist _).subset (by
    rw [hrest]
    exact List.mem_cons_self)
  rw [← List.takeWhile_append_dropWhile (p := (·.sender ≠ w.key)) (l := c.readings u), hrest,
    List.filter_append, List.filter_cons_of_pos (by simpa using hown)] at hpre
  -- Of the frames before it none is the node's own, so it is the first that the node has written.
  have hnone : ((c.readings u).takeWhile (·.sender ≠ w.key)).filter (·.sender = w.key) = [] := by
    rw [List.filter_eq_nil_iff]
    intro r' hr'
    have := List.mem_takeWhile_imp hr'
    simpa using this
  rw [hnone, List.nil_append, List.map_cons] at hpre
  unfold written at hpre
  split at hpre
  next frame hhello =>
    have hbytes : r.frame.bytes = frame := (List.cons_prefix_cons.1 hpre).1
    exact Member.op_of_hello hhello (hbytes ▸ (sound_of_mem_readings hmem).frame_sound.decoded)
  next =>
    have := hpre.length_le
    simp at this

theorem Coherent.head?_accepted (h : c.Coherent u) {i : ι} {w : Wire}
    (hw : (c.client i).wire = some w) {o : Offer}
    (ho : (c.accepted u w.key).head? = some o) :
    c.early u w.key = [] ∧ o = ⟨w.key, (State.start u.config u.identity).welcome⟩ ∨
      ∃ r ∈ c.early u w.key, o = ⟨r.sender, r.frame.bytes⟩ :=
  Relay.head?_accepted (c.between_readings u) (fun _ hr => sound_of_mem_readings hr)
    (fun _ hr => h.first_own_is_hello hw hr) ho

/-- What a node has read starts with the first frame that has been put into its queue. -/
theorem Coherent.first_heard (h : c.Coherent u) {i : ι} {w : Wire}
    (hw : (c.client i).wire = some w) {head more : Bytes} (hlen : head.length = headerSize)
    (hheard : (c.client i).heard = head ++ more) : ∃ o, (c.accepted u w.key).head? = some o ∧
      ∀ me, Header.decode me head = Header.decode me o.item := by
  obtain ⟨lost, hdown, -⟩ := (h.linked i w hw).down
  rw [queued_eq, hheard, List.append_assoc] at hdown
  cases ha : c.accepted u w.key with
  | nil =>
    rw [ha] at hdown
    have := congrArg List.length hdown
    rw [List.length_append, hlen] at this
    simp [headerSize] at this
  | cons o rest =>
    refine ⟨o, rfl, fun me => ?_⟩
    obtain ⟨r, hr, hro⟩ := List.mem_filterMap.1
      (show o ∈ (c.readings u).filterMap (·.accepted? w.key) by
        change o ∈ c.accepted u w.key
        rw [ha]
        exact List.mem_cons_self)
    obtain ⟨header, hd, -⟩ := accepted_wellFormed (sound_of_mem_readings hr) hro me
    have hsize := (Header.length_of_decode hd).1
    -- The item is at least as long as a header, so the head of what has been read is its head.
    rw [ha, List.map_cons, List.flatten_cons] at hdown
    have hhead : head = o.item.take headerSize := by
      have := congrArg (List.take headerSize) hdown
      rwa [← hlen, List.take_left, hlen, List.take_append_of_le_length hsize] at this
    have hlong : headerSize ≤ (o.item.take headerSize).length := by
      rw [List.length_take]
      omega
    rw [hhead, ← Header.decode_append me (o.item.drop headerSize) hlong,
      List.take_append_drop]

/-! ## How a start ends -/

theorem Steady.overflows (h : c.Steady u) {key : Nat} (hr : c.Refuses u key) :
    c.Overflows u key := by
  obtain ⟨r, hmem, hrefuses⟩ := hr
  refine ⟨r, hmem, (Bool.and_eq_true_iff.1 hrefuses).1, ?_⟩
  rw [Reading.length_waiting_of_refuses (sound_of_mem_readings hmem).before_sound
    (h.opened_before r hmem) hrefuses, (sound_of_mem_readings hmem).config_eq]
  rfl

/-- The first frame for a node is an eviction exactly if its answer is not a welcome. -/
theorem Coherent.judged (h : c.Coherent u) {i : ι} {w : Wire}
    (hw : (c.client i).wire = some w) {head more : Bytes} (hlen : head.length = headerSize)
    (hheard : (c.client i).heard = head ++ more) :
    c.early u w.key = [] ∧ RelayClient.checkWelcome (u.member i).codec head = .ok () ∨
      ∃ r ∈ c.early u w.key, RelayClient.checkWelcome (u.member i).codec head =
        .error (.handshake
          s!"expected empty Welcome, got Evict with {r.frame.header.length} bytes") := by
  obtain ⟨o, ho, hdecode⟩ := h.first_heard hw hlen hheard
  obtain ⟨header, hd, -⟩ := Header.exists_decode (u.member i).codec.identity
    (Nat.le_of_eq hlen.symm)
  have hitem := (hdecode (u.member i).codec.identity).symm.trans hd
  -- The header that the node has read is the one of the first frame in its queue.
  rcases h.head?_accepted hw ho with ⟨hearly, rfl⟩ | ⟨r, hr, rfl⟩
  · refine .inl ⟨hearly, ?_⟩
    have hwelcome := Header.decode_bytes (u.member i).codec.identity u.identity []
      (show OpCode.welcome.isEncodable = true by decide) (Nat.zero_le maxPayload)
    rw [List.append_nil] at hwelcome
    rw [checkWelcome_of_decode hd, Except.ok.inj (hitem.symm.trans hwelcome)]
    rfl
  · refine .inr ⟨r, hr, ?_⟩
    obtain ⟨hmem, hoffer⟩ := List.mem_filter.1 hr
    have hne : r.sender ≠ w.key := by simpa using List.mem_takeWhile_imp hmem
    have hreading : r ∈ c.readings u := (List.takeWhile_sublist _).subset hmem
    obtain ⟨o, ho⟩ := Option.isSome_iff_exists.1 hoffer
    obtain ⟨-, ⟨hsender, -⟩ | ⟨-, hop, -, -⟩⟩ := Reading.offer?_eq_some_iff.1 ho
    · exact absurd hsender hne
    obtain ⟨hop', hlen'⟩ :=
      Header.same_of_decode hitem (sound_of_mem_readings hreading).frame_sound.decoded
    rw [checkWelcome_of_decode hd, hop', hop, hlen', if_neg (by simp)]
    rfl

/-- The relay has read the greeting of a node when nothing is on its way from the node. -/
theorem Coherent.exists_greeting (hc : c.Coherent u) (hfits : u.Fits) {i : ι} {w : Wire}
    (hw : (c.client i).wire = some w) (hg : (c.client i).greeting ≠ none)
    (hm : (c.relay u).peers.contains w.key = true) (hup : w.up = []) (hunsent : w.unsent = [])
    (hended : w.upEnded = false) :
    ∃ r ∈ c.readings u, r.offer? w.key = some ⟨w.key, r.before.welcome⟩ := by
  obtain ⟨frame, hhello, hwhole⟩ := hfits.exists_hello i
  have hwritten := (hc.sound i).written_of_greeting hg hhello
  have hframes := hc.frames_eq hw (by
    intro raw hraw
    rw [hwritten] at hraw
    rw [List.mem_singleton.1 hraw]
    exact hwhole) hm hup hunsent hended
  rw [hwritten] at hframes
  obtain ⟨r, hr, hbytes⟩ := List.mem_map.1
    (show frame ∈ ((c.readings u).filter (·.sender = w.key)).map (·.frame.bytes) by
      rw [hframes]
      exact List.mem_cons_self)
  obtain ⟨hmem, hsender⟩ := List.mem_filter.1 hr
  have hrsound := sound_of_mem_readings hmem
  have hop := Member.op_of_hello hhello (hbytes ▸ hrsound.frame_sound.decoded)
  refine ⟨r, hmem, Reading.offer?_eq_some_iff.2 ⟨?_, .inl ⟨of_decide_eq_true hsender, hop, rfl⟩⟩⟩
  rw [← of_decide_eq_true hsender]
  exact hrsound.member

/-- Nothing has been put into the queue of a node that is still being started when nothing is on its
way to the node. -/
theorem Coherent.accepted_eq_nil (hc : c.Coherent u) {i : ι} {w : Wire}
    (hw : (c.client i).wire = some w) (hg : (c.client i).greeting ≠ none)
    (hwriting : w.writing = []) (hdown : w.down = []) (hwaiting : (c.relay u).waiting w.key = [])
    (hended : w.downEnded = false) : c.accepted u w.key = [] := by
  obtain ⟨g, hg'⟩ := Option.ne_none_iff_exists'.1 hg
  obtain ⟨hheard, hshort, -⟩ := (hc.sound i).greeted g hg'
  obtain ⟨lost, hflatten, hlost⟩ := (hc.linked i w hw).down
  have hnone : lost = [] := by
    rw [hlost hended, hwriting]
    show [] ++ ((c.relay u).waiting w.key).flatten = []
    rw [hwaiting]
    rfl
  rw [hdown, hnone, List.append_nil, List.append_nil, queued_eq, hheard] at hflatten
  cases ha : c.accepted u w.key with
  | nil => rfl
  | cons o rest =>
    -- A frame is at least as long as a header, and the node has read less.
    have ho : o ∈ c.accepted u w.key := by
      rw [ha]
      exact List.mem_cons_self
    obtain ⟨r, hr, hro⟩ := List.mem_filterMap.1 ho
    obtain ⟨header, hd, -⟩ := accepted_wellFormed (sound_of_mem_readings hr) hro u.identity
    have hlong := (Header.length_of_decode hd).1
    rw [ha, List.map_cons, List.flatten_cons] at hflatten
    have := congrArg List.length hflatten
    rw [List.length_append] at this
    omega

/-- When nothing is on the way between the relay and a node that is being started, its greeting has
been answered, or its queue was full. -/
theorem Steady.overflows_of_quiet (h : c.Steady u) (hc : c.Coherent u) (hfits : u.Fits) {i : ι}
    {w : Wire} (hw : (c.client i).wire = some w) (hg : (c.client i).greeting ≠ none)
    (hquiet : c.Quiet u w) : c.Overflows u w.key := by
  obtain ⟨hunsent, hup, hwriting, hdown, hwaiting⟩ := hquiet
  rcases (h.clients i).member w hw hg with hm | hr
  swap
  · exact h.overflows hr
  have hended : w.downEnded = false := by
    cases he : w.downEnded with
    | false => rfl
    | true =>
      have := (h.clients i).downEnded w hw hg he
      rw [hm] at this
      cases this
  obtain ⟨r, hmem, hoffer⟩ :=
    hc.exists_greeting hfits hw hg hm hup hunsent ((h.clients i).upEnded w hw hg)
  -- The welcome has not been put into the queue, since the node has not read it.
  have haccepted := hc.accepted_eq_nil hw hg hwriting hdown hwaiting hended
  refine h.overflows ⟨r, hmem, Reading.refuses_of_offer? (by rw [hoffer]; rfl) ?_⟩
  exact List.filterMap_eq_nil_iff.1 haccepted r hmem

/-- A start that has failed has read an eviction in the place of the welcome, or the queue was full.
-/
theorem Steady.failed_cases (h : c.Steady u) (hc : c.Coherent u) {i : ι} {w : Wire}
    (hw : (c.client i).wire = some w) {e : TransportError}
    (he : (c.client i).outcome = some (.error e)) :
    (∃ r ∈ c.early u w.key, e = .handshake
      s!"expected empty Welcome, got Evict with {r.frame.header.length} bytes") ∨
      c.Overflows u w.key ∧
        ∃ io, e = RelayClient.helloFailed io ∨ e = RelayClient.welcomeFailed io := by
  rcases (h.clients i).failed e he with ⟨hlen, hjudged⟩ | ⟨⟨v, hv, hr⟩, hio⟩
  · rcases hc.judged hw hlen (List.append_nil _).symm with ⟨-, hok⟩ | ⟨r, hr, herror⟩
    · rw [hok] at hjudged
      cases hjudged
    · rw [herror] at hjudged
      exact .inl ⟨r, hr, (Except.error.inj hjudged).symm⟩
  · rw [hw] at hv
    cases hv
    exact .inr ⟨h.overflows hr, hio⟩

/-- How the start of a node goes while nothing fails. -/
structure Welcomes (u : Setup ι) (c : Cluster ι) (i : ι) (w : Wire) : Prop where
  /-- The first frame put into the queue of the node is the welcome if no eviction was offered to
  the node before its greeting, and otherwise one of those evictions. -/
  first : ∀ o, (c.accepted u w.key).head? = some o →
    c.early u w.key = [] ∧ o = ⟨w.key, (State.start u.config u.identity).welcome⟩ ∨
      ∃ r ∈ c.early u w.key, o = ⟨r.sender, r.frame.bytes⟩
  /-- A start succeeds only if the welcome comes first. -/
  started : (c.client i).outcome = some (.ok ()) → c.early u w.key = []
  /-- It fails only for an eviction in the place of the welcome, or after the queue was full. -/
  failed : ∀ e, (c.client i).outcome = some (.error e) →
    (∃ r ∈ c.early u w.key, e = .handshake
      s!"expected empty Welcome, got Evict with {r.frame.header.length} bytes") ∨
      c.Overflows u w.key ∧ ∃ io, e = RelayClient.helloFailed io ∨ e = RelayClient.welcomeFailed io
  /-- If neither has happened, it has succeeded once nothing is on the way. -/
  succeeds : c.early u w.key = [] → ¬ c.Overflows u w.key → c.Quiet u w →
    (c.client i).outcome = some (.ok ())

variable [DecidableEq ι]

/-- However a relay and its nodes move, as long as nothing fails a node is started unless an
eviction has been offered to it before its greeting, or when its queue was full. -/
theorem welcomes_run (u : Setup ι) (hfits : u.Fits) (steps : List (Step ι))
    (hsmooth : (initial : Cluster ι).Smooth u steps) (i : ι) (w : Wire)
    (hw : ((initial.run u steps).client i).wire = some w) :
    (initial.run u steps).Welcomes u i w := by
  have hc := coherent_run (coherent_initial u) steps
  have h := steady_run (steady_initial u) (coherent_initial u) hfits hsmooth
  constructor
  case first => exact fun o ho => hc.head?_accepted hw ho
  case started =>
    intro ho
    obtain ⟨head, raws, rest, hheard, hlen, hwelcome, -⟩ := (hc.sound i).started ho
    rcases hc.judged hw hlen hheard with ⟨hearly, -⟩ | ⟨r, -, herror⟩
    · exact hearly
    · rw [hwelcome] at herror
      cases herror
  case failed => exact fun e he => h.failed_cases hc hw he
  case succeeds =>
    intro hearly hroom hquiet
    cases ho : ((initial.run u steps).client i).outcome with
    | none =>
      -- The start cannot be under way any more.
      have hg : ((initial.run u steps).client i).greeting ≠ none := fun hg =>
        (hc.sound i).connected (by rw [hw]; simp) hg ho
      exact absurd (h.overflows_of_quiet hc hfits hw hg hquiet) hroom
    -- It has ended, and both reasons to fail are excluded.
    | some outcome =>
      cases outcome with
      | ok _ => rfl
      | error e =>
        rcases h.failed_cases hc hw ho with ⟨r, hr, -⟩ | ⟨hfull, -⟩
        · rw [hearly] at hr
          cases hr
        · exact absurd hfull hroom

theorem welcomes_join : pair.Fits ∧ (initial.run pair (join false)).Welcomes pair false
    ⟨1, [], [], [], [], false, false⟩ := by
  have hfits : pair.Fits := fun i => by cases i <;> decide +kernel
  refine ⟨hfits, welcomes_run pair hfits (join false) ?_ false _ (by decide +kernel)⟩
  exact ⟨trivial, trivial, trivial, trivial, trivial, trivial, trivial⟩

/-- One node is welcomed; a second one connects and greets the relay, which reads an eviction of the
first one before the greeting. -/
def rush : List (Step Bool) :=
  join false ++ [.start true 0 "", .act false (.send [7]), .act true (.write 24),
    .act false (.write 21), .arrive false 0 21, .arrive true 0 24, .take true 0,
    .act true (.forward 21), .act true (.answer 20)]

/-- Not every start succeeds, even if nothing fails. -/
theorem exists_not_welcomed : ¬ ∀ (u : Setup Bool) (steps : List (Step Bool)) (i : Bool)
    (e : TransportError), u.Fits → (initial : Cluster Bool).Smooth u steps →
      ((initial.run u steps).client i).outcome ≠ some (.error e) := by
  intro h
  refine h pair rush true (.handshake "expected empty Welcome, got Evict with 1 bytes") ?_ ?_ ?_
  · exact fun i => by cases i <;> decide +kernel
  · exact ⟨trivial, trivial, trivial, trivial, trivial, trivial, trivial, trivial, trivial, trivial,
      trivial, trivial, trivial, trivial, trivial, trivial⟩
  · decide +kernel

end Cluster

end EvictionBus.Relay

import EvictionBus.Proofs.Mesh.Links
import EvictionBus.Proofs.Mesh.Member

/-!
# What connections carry

Between two calls to send, a connection that is kept has carried whole frames only: those of a call
to send and of all later ones. While a frame is on its way, the connections that are lent to it have
carried a part of it behind whole frames. `Coherent` is the invariant that says so.
-/

namespace EvictionBus.Mesh

/-! ## Whole frames and parts -/

/-- All frames from one of them on. -/
def Whole (frames : List Bytes) (carried : Bytes) : Prop :=
  ∃ i < frames.length, carried = (frames.drop i).flatten

/-- Some of the last frames, or none, and as much of the next one as leaves a rest. -/
def Partway (frames : List Bytes) (frame rest carried : Bytes) : Prop :=
  ∃ i ≤ frames.length, ∃ part, carried = (frames.drop i).flatten ++ part ∧ part ++ rest = frame

variable {frames : List Bytes} {frame rest carried : Bytes}

theorem Whole.partway (h : Whole frames carried) (frame : Bytes) :
    Partway frames frame frame carried := by
  obtain ⟨i, hi, rfl⟩ := h
  exact ⟨i, Nat.le_of_lt hi, [], (List.append_nil _).symm, rfl⟩

theorem partway_nil (frames : List Bytes) (frame : Bytes) : Partway frames frame frame [] := by
  refine ⟨frames.length, Nat.le_refl _, [], ?_, rfl⟩
  rw [List.drop_length, List.flatten_nil, List.append_nil]

theorem Partway.took (h : Partway frames frame rest carried) (count : Nat) :
    Partway frames frame (rest.drop count) (carried ++ rest.take count) := by
  obtain ⟨i, hi, part, rfl, hframe⟩ := h
  refine ⟨i, hi, part ++ rest.take count, List.append_assoc .., ?_⟩
  rw [List.append_assoc, List.take_append_drop, hframe]

theorem Partway.whole (h : Partway frames frame [] carried) :
    Whole (frames ++ [frame]) carried := by
  obtain ⟨i, hi, part, rfl, hframe⟩ := h
  rw [List.append_nil] at hframe
  refine ⟨i, ?_, ?_⟩
  · rw [List.length_append, List.length_singleton]
    exact Nat.lt_succ_of_le hi
  · rw [List.drop_append_of_le_length hi, List.flatten_append, List.flatten_singleton, hframe]

/-! ## The invariant -/

def targets (peers : List Address) : List String :=
  peers.map Address.socketTarget

/-- The connections that are lent to a frame. -/
def lines (writes : List (String × Stage)) : List Nat :=
  writes.filterMap fun w => w.2.line?.map Prod.fst

theorem mem_lines {writes : List (String × Stage)} {c : Nat} :
    c ∈ lines writes ↔ ∃ w ∈ writes, ∃ rest, w.2.line? = some (c, rest) := by
  unfold lines
  rw [List.mem_filterMap]
  constructor
  · rintro ⟨w, hw, hc⟩
    obtain ⟨⟨c, rest⟩, hline, rfl⟩ := Option.map_eq_some_iff.mp hc
    exact ⟨w, hw, rest, hline⟩
  · rintro ⟨w, hw, rest, hline⟩
    exact ⟨w, hw, by rw [hline]; rfl⟩

theorem lines_cons (w : String × Stage) (writes : List (String × Stage)) :
    lines (w :: writes) = (w.2.line?.map Prod.fst).toList ++ lines writes := by
  unfold lines
  rw [List.filterMap_cons]
  cases w.2.line? <;> rfl

theorem map_fst_set {writes : List (String × Stage)} {place : Nat} {target : String}
    {stage : Stage} (h : writes[place]? = some (target, stage)) (stage' : Stage) :
    (writes.set place (target, stage')).map Prod.fst = writes.map Prod.fst := by
  induction writes generalizing place with
  | nil => rfl
  | cons w writes ih =>
    cases place with
    | zero =>
      cases h
      rfl
    | succ place => rw [List.set_cons_succ, List.map_cons, List.map_cons, ih h]

/-- The write at a place comes first, up to order. -/
theorem perm_lines {writes : List (String × Stage)} {place : Nat} {w : String × Stage}
    (h : writes[place]? = some w) :
    (lines writes).Perm ((w.2.line?.map Prod.fst).toList ++ lines (writes.eraseIdx place)) := by
  induction writes generalizing place with
  | nil => cases h
  | cons u writes ih =>
    cases place with
    | zero =>
      cases h
      rw [lines_cons, List.eraseIdx_cons_zero]
    | succ place =>
      rw [lines_cons, List.eraseIdx_cons_succ, lines_cons]
      exact ((ih h).append_left _).trans (List.perm_append_comm_assoc ..)

/-- A connection is lent to one peer. -/
theorem eq_of_nodup_lines {writes : List (String × Stage)} (h : (lines writes).Nodup)
    {v w : String × Stage} (hv : v ∈ writes) (hw : w ∈ writes) {c : Nat} {rest rest' : Bytes}
    (hline : v.2.line? = some (c, rest)) (hline' : w.2.line? = some (c, rest')) : v = w := by
  induction writes with
  | nil => exact absurd hv List.not_mem_nil
  | cons u writes ih =>
    rw [lines_cons, List.nodup_append] at h
    -- No later entry has the connection of the first one.
    have hfirst : ∀ x ∈ writes, ∀ r r', u.2.line? = some (c, r) → x.2.line? = some (c, r') →
        False := by
      intro x hx r r' hu hxline
      refine h.2.2 c ?_ c (mem_lines.mpr ⟨x, hx, r', hxline⟩) rfl
      rw [hu]
      exact List.mem_singleton_self c
    rcases List.mem_cons.mp hv with rfl | hv'
    · rcases List.mem_cons.mp hw with rfl | hw'
      · rfl
      · exact (hfirst w hw' rest rest' hline hline').elim
    · rcases List.mem_cons.mp hw with rfl | hw'
      · exact (hfirst v hv' rest' rest hline' hline).elim
      · exact ih h.2.1 hv' hw'

theorem nodup_lines_set {writes : List (String × Stage)} (h : (lines writes).Nodup) {place : Nat}
    {w : String × Stage} (hplace : writes[place]? = some w) (target : String) {stage : Stage}
    (hline : ∀ c rest, stage.line? = some (c, rest) →
      (∃ rest, w.2.line? = some (c, rest)) ∨ c ∉ lines writes) :
    (lines (writes.set place (target, stage))).Nodup := by
  have hlt : place < writes.length := (List.getElem?_eq_some_iff.mp hplace).1
  have hold := (perm_lines hplace).nodup_iff.mp h
  have hset := perm_lines (List.getElem?_set_self (a := (target, stage)) hlt)
  rw [List.eraseIdx_set_eq] at hset
  rw [hset.nodup_iff, List.nodup_append]
  refine ⟨?_, (List.nodup_append.mp hold).2.1, ?_⟩
  · cases stage.line? with
    | none => exact List.nodup_nil
    | some l => exact List.nodup_singleton _
  · intro c hc c' hc' heq
    subst heq
    rw [Option.mem_toList, Option.map_eq_some_iff] at hc
    obtain ⟨⟨c, rest⟩, hstage, rfl⟩ := hc
    rcases hline c rest hstage with ⟨rest', hw⟩ | hnot
    · refine (List.nodup_append.mp hold).2.2 c ?_ c hc' rfl
      rw [hw]
      exact List.mem_singleton_self c
    · exact hnot ((perm_lines hplace).mem_iff.mpr (List.mem_append_right _ hc'))

/-- The connections of a round have carried a part of its frame behind those of earlier rounds. -/
structure Underway (peers : List Address) (s : State) (r : Round) : Prop where
  targets_eq : r.writes.map Prod.fst = targets peers
  carried : ∃ before, s.frames = before ++ [r.frame] ∧
    ∀ target stage c rest, (target, stage) ∈ r.writes → stage.line? = some (c, rest) →
      ∃ carried, s.wires.get? c = some ⟨target, carried⟩ ∧ Partway before r.frame rest carried
  nodup_lines : (lines r.writes).Nodup
  stopped : s.closing = false → ∀ w ∈ r.writes, w.2 ≠ .done .stopped

structure Coherent (peers : List Address) (s : State) : Prop where
  closed : s.closing = true → s.life.closed = true
  link : s.life.link = none → s.closing = true ∧ s.round = none
  peers_eq : ∀ links, s.life.link = some links → links.peers = peers
  nodup_kept : ∀ links, s.life.link = some links → (links.kept.map Prod.fst).Nodup
  known : ∀ links, s.life.link = some links → ∀ e ∈ links.kept, e.1 ∈ targets peers
  whole : ∀ links, s.life.link = some links → s.round = none → ∀ target c,
    (target, c) ∈ links.kept →
      ∃ carried, s.wires.get? c = some ⟨target, carried⟩ ∧ Whole s.frames carried
  underway : ∀ r, s.round = some r → Underway peers s r

variable {m : Member} {peers : List Address} {s s' : State} {e : Event}

theorem coherent_initial (peers : List Address) : Coherent peers (.initial peers) where
  closed h := absurd h (by exact Bool.false_ne_true)
  link h := by cases h
  peers_eq links h := by
    cases h
    rfl
  nodup_kept links h := by
    cases h
    exact List.nodup_nil
  known links h e he := by
    cases h
    exact absurd he List.not_mem_nil
  whole links h _ target c hc := by
    cases h
    exact absurd hc List.not_mem_nil
  underway r h := by cases h

/-- A connection is kept for one address only, the one that was dialled. -/
theorem Coherent.nodup_connections (h : Coherent peers s) {links : MeshLinks}
    (hlink : s.life.link = some links) (hround : s.round = none) :
    (links.kept.map Prod.snd).Nodup := by
  have hfst := h.nodup_kept links hlink
  rw [List.nodup_map_iff_inj_on (List.Nodup.of_map Prod.fst hfst)]
  rintro ⟨t, c⟩ ht ⟨t', c'⟩ ht' rfl
  obtain ⟨carried, hwire, -⟩ := h.whole links hlink hround t c ht
  obtain ⟨carried', hwire', -⟩ := h.whole links hlink hround t' c ht'
  rw [hwire] at hwire'
  cases hwire'
  rfl

/-! ## Steps -/

theorem mem_start {links : MeshLinks} {frame : Bytes} {target : String} {stage : Stage} {c : Nat}
    {rest : Bytes}
    (h : (target, stage) ∈ links.plan.map fun p => (p.1, Stage.start frame p.2))
    (hline : stage.line? = some (c, rest)) : (target, c) ∈ links.kept ∧ rest = frame := by
  obtain ⟨⟨t, kept?⟩, hp, heq⟩ := List.mem_map.mp h
  cases heq
  cases kept? with
  | none => cases hline
  | some c' =>
    cases hline
    exact ⟨MeshLinks.mem_kept_of_mem_takeOut hp, rfl⟩

theorem lines_start (links : MeshLinks) (frame : Bytes) :
    lines (links.plan.map fun p => (p.1, Stage.start frame p.2)) =
      links.plan.filterMap Prod.snd := by
  unfold lines
  rw [List.filterMap_map]
  apply List.filterMap_congr
  rintro ⟨t, kept?⟩ _
  cases kept? <;> rfl

theorem Coherent.begun (h : Coherent peers s) {links : MeshLinks}
    (hactive : s.life.active = .ok links) (hround : s.round = none) (payload frame : Bytes) :
    Coherent peers (s.begun links payload frame) where
  closed := h.closed
  link hnone := by
    have hlink := Lifecycle.link_of_active hactive
    rw [State.begun] at hnone
    rw [hlink] at hnone
    cases hnone
  peers_eq := h.peers_eq
  nodup_kept := h.nodup_kept
  known := h.known
  whole _ _ hr := by cases hr
  underway r hr := by
    cases hr
    have hlink := Lifecycle.link_of_active hactive
    have hpeers := h.peers_eq links hlink
    exact
      { targets_eq := by
          rw [List.map_map, targets, ← hpeers]
          exact MeshLinks.map_fst_takeOut ..
        carried := by
          refine ⟨s.frames, rfl, ?_⟩
          intro target stage c rest hw hline
          obtain ⟨hkept, rfl⟩ := mem_start hw hline
          obtain ⟨carried, hwire, hwhole⟩ := h.whole links hlink hround target c hkept
          exact ⟨carried, hwire, hwhole.partway _⟩
        nodup_lines := by
          rw [lines_start]
          exact MeshLinks.nodup_takeOut (h.nodup_connections hlink hround) _
        stopped := by
          intro _ w hw
          obtain ⟨⟨t, kept?⟩, -, rfl⟩ := List.mem_map.mp hw
          cases kept? <;> exact nofun }

theorem Stage.onward_line? (c : Nat) (rest : Bytes) :
    (Stage.onward c rest).line? = some (c, rest) := by
  unfold onward
  split
  next hrest =>
    rw [hrest]
    rfl
  next => rfl

theorem Stage.onward_ne_stopped (c : Nat) (rest : Bytes) :
    Stage.onward c rest ≠ .done .stopped := by
  unfold onward
  split <;> exact nofun

/-- The write to one peer is all that an event at this peer changes. -/
theorem Stage.Next.get?_eq {closing : Bool} {target : String} {frame : Bytes}
    {wires wires' : KeyTable Wire} {stage stage' : Stage} {e : PeerEvent}
    (h : stage.Next closing target frame wires e wires' stage') {c : Nat}
    (hstage : ∀ rest, stage'.line? ≠ some (c, rest)) : wires'.get? c = wires.get? c := by
  cases h with
  | connected d hnew =>
    have hne : c ≠ d := fun h => hstage frame (h ▸ rfl)
    rw [KeyTable.get?_insert, if_neg hne]
  | took d rest count =>
    have hne : c ≠ d := fun h => hstage (rest.drop count) (h ▸ Stage.onward_line? ..)
    rw [KeyTable.get?_modify, if_neg hne]
  | broken => rfl
  | stopped => rfl

/-- The connection of a write is the one before or a new one. -/
theorem Stage.Next.line? {closing : Bool} {target : String} {frame : Bytes}
    {wires wires' : KeyTable Wire} {stage stage' : Stage} {e : PeerEvent}
    (h : stage.Next closing target frame wires e wires' stage') {c : Nat} {rest : Bytes}
    (hline : stage'.line? = some (c, rest)) :
    (∃ rest, stage.line? = some (c, rest)) ∨ wires.get? c = none := by
  cases h with
  | connected d hnew =>
    cases hline
    exact .inr hnew
  | took d rest' count =>
    rw [Stage.onward_line?] at hline
    cases hline
    exact .inl ⟨rest', rfl⟩
  | broken => cases hline
  | stopped => cases hline

theorem Stage.Next.partway {closing : Bool} {target : String} {frame : Bytes}
    {wires wires' : KeyTable Wire} {stage stage' : Stage} {e : PeerEvent}
    (h : stage.Next closing target frame wires e wires' stage')
    (hbefore : ∀ c rest, stage.line? = some (c, rest) →
      ∃ carried, wires.get? c = some ⟨target, carried⟩ ∧ Partway frames frame rest carried)
    {c : Nat} {rest : Bytes} (hline : stage'.line? = some (c, rest)) :
    ∃ carried, wires'.get? c = some ⟨target, carried⟩ ∧ Partway frames frame rest carried := by
  cases h with
  | connected d hnew =>
    cases hline
    exact ⟨[], by rw [KeyTable.get?_insert, if_pos rfl], partway_nil frames frame⟩
  | took d rest' count =>
    rw [Stage.onward_line?] at hline
    cases hline
    obtain ⟨carried, hwire, hpart⟩ := hbefore c rest' rfl
    refine ⟨carried ++ rest'.take count, ?_, hpart.took count⟩
    rw [KeyTable.get?_modify, if_pos rfl, hwire]
    rfl
  | broken => cases hline
  | stopped => cases hline

theorem Underway.put {r : Round} (h : Underway peers s r) {place : Nat} {target : String}
    {stage stage' : Stage} {e : PeerEvent} {wires : KeyTable Wire}
    (hplace : r.writes[place]? = some (target, stage))
    (hnext : stage.Next s.closing target r.frame s.wires e wires stage') :
    Underway peers (s.put r place target wires stage')
      { r with writes := r.writes.set place (target, stage') } := by
  have hlt : place < r.writes.length := (List.getElem?_eq_some_iff.mp hplace).1
  have hmem : (target, stage) ∈ r.writes := List.mem_of_getElem? hplace
  obtain ⟨before, hframes, hcarried⟩ := h.carried
  -- A new connection is not in use, since it is not even known.
  have hnodup : (lines (r.writes.set place (target, stage'))).Nodup := by
    apply nodup_lines_set h.nodup_lines hplace
    intro c rest hline
    apply (hnext.line? hline).imp_right
    intro hnone hin
    obtain ⟨w, hw, rest', hline'⟩ := mem_lines.mp hin
    obtain ⟨carried, hwire, -⟩ := hcarried w.1 w.2 c rest' hw hline'
    rw [hnone] at hwire
    cases hwire
  have hset : (target, stage') ∈ r.writes.set place (target, stage') := by
    rw [List.mem_iff_getElem?]
    exact ⟨place, List.getElem?_set_self hlt⟩
  exact
    { targets_eq := by
        rw [← h.targets_eq]
        exact map_fst_set hplace stage'
      carried := by
        refine ⟨before, hframes, ?_⟩
        intro t st c rest hw hline
        by_cases hsame : ∃ rest', stage'.line? = some (c, rest')
        · obtain ⟨rest', hline'⟩ := hsame
          -- It is the connection of the write that has come further.
          cases eq_of_nodup_lines hnodup hw hset hline hline'
          exact hnext.partway (fun c rest hl => hcarried target stage c rest hmem hl) hline
        · have hother : ∀ rest', stage'.line? ≠ some (c, rest') := fun rest' hl => hsame ⟨rest', hl⟩
          rcases List.mem_or_eq_of_mem_set hw with hw | heq
          · obtain ⟨carried, hwire, hpart⟩ := hcarried t st c rest hw hline
            exact ⟨carried, (hnext.get?_eq hother).trans hwire, hpart⟩
          · cases heq
            exact absurd hline (hother rest)
      nodup_lines := hnodup
      stopped := by
        intro hclosing w hw
        rcases List.mem_or_eq_of_mem_set hw with hw | rfl
        · exact h.stopped hclosing w hw
        · cases hnext with
          | connected => exact nofun
          | took d rest count => exact Stage.onward_ne_stopped d (rest.drop count)
          | broken => exact nofun
          | stopped _ hc =>
            change s.closing = false at hclosing
            rw [hclosing] at hc
            cases hc }

theorem Coherent.put (h : Coherent peers s) {r : Round} (hround : s.round = some r) {place : Nat}
    {target : String} {stage stage' : Stage} {e : PeerEvent} {wires : KeyTable Wire}
    (hplace : r.writes[place]? = some (target, stage))
    (hnext : stage.Next s.closing target r.frame s.wires e wires stage') :
    Coherent peers (s.put r place target wires stage') where
  closed := h.closed
  link hnone := by
    have hr := (h.link hnone).2
    rw [hround] at hr
    cases hr
  peers_eq := h.peers_eq
  nodup_kept := h.nodup_kept
  known := h.known
  whole _ _ hr := by cases hr
  underway r' hr := by
    cases hr
    exact (h.underway r hround).put hplace hnext

theorem link_accounted {L : Type} (life : Lifecycle L) (result : Except TransportError Unit) :
    (State.accounted life result).link = life.link := by
  cases result <;> rfl

theorem closed_accounted {L : Type} (life : Lifecycle L) (result : Except TransportError Unit) :
    (State.accounted life result).closed = life.closed := by
  cases result <;> rfl

/-- All connections are lent to a round, so only those on which the frame has been written are
kept after it. -/
theorem Coherent.lent_eq (h : Coherent peers s) {links : MeshLinks}
    (hlink : s.life.link = some links) : links.lent = .ofPeers peers := by
  have hpeers := h.peers_eq links hlink
  rw [MeshLinks.lent_eq, hpeers]
  rw [hpeers]
  exact h.known links hlink

theorem Coherent.written_of_kept (h : Coherent peers s) {r : Round} {links : MeshLinks}
    (hlink : s.life.link = some links) {outcomes : List (String × MeshLinks.Outcome)}
    (houtcomes : outcomes? r.writes = some outcomes) {target : String} {c : Nat}
    (hkept : (target, c) ∈ (links.sent outcomes).1.kept) :
    (target, Stage.done (.written c)) ∈ r.writes := by
  rcases MeshLinks.mem_kept_sent hkept with hin | hin
  · rw [h.lent_eq hlink] at hin
    exact absurd hin List.not_mem_nil
  · exact mem_of_outcomes? houtcomes hin

theorem State.link_settled {links : MeshLinks} (hlink : s.life.link = some links) (r : Round)
    (outcomes : List (String × MeshLinks.Outcome)) :
    (s.settled r links outcomes).life.link = some (links.sent outcomes).1 := by
  rw [State.settled, link_accounted, Lifecycle.modifyLink, hlink]
  rfl

theorem Coherent.settled (h : Coherent peers s) {r : Round} (hround : s.round = some r)
    {links : MeshLinks} (hlink : s.life.link = some links)
    {outcomes : List (String × MeshLinks.Outcome)}
    (houtcomes : outcomes? r.writes = some outcomes) :
    Coherent peers (s.settled r links outcomes) := by
  obtain ⟨before, hframes, hcarried⟩ := (h.underway r hround).carried
  have hafter := State.link_settled hlink r outcomes
  constructor
  case closed =>
    intro hclosing
    rw [State.settled, closed_accounted]
    exact h.closed hclosing
  case link =>
    intro hnone
    rw [hafter] at hnone
    cases hnone
  case peers_eq =>
    intro links' hlink'
    rw [hafter] at hlink'
    cases hlink'
    rw [MeshLinks.peers_sent]
    exact h.peers_eq links hlink
  case nodup_kept =>
    intro links' hlink'
    rw [hafter] at hlink'
    cases hlink'
    exact MeshLinks.nodup_kept_sent (h.nodup_kept links hlink) outcomes
  case known =>
    intro links' hlink' e he
    rw [hafter] at hlink'
    cases hlink'
    rw [← (h.underway r hround).targets_eq]
    exact List.mem_map_of_mem (f := Prod.fst) (h.written_of_kept hlink houtcomes he)
  case whole =>
    intro links' hlink' _ target c hkept
    rw [hafter] at hlink'
    cases hlink'
    obtain ⟨carried, hwire, hpart⟩ :=
      hcarried target (.done (.written c)) c [] (h.written_of_kept hlink houtcomes hkept) rfl
    refine ⟨carried, hwire, ?_⟩
    rw [show (s.settled r links outcomes).frames = before ++ [r.frame] from hframes]
    exact hpart.whole
  case underway =>
    intro r' hr
    cases hr

/-- A round does not depend on anything else in the state. -/
theorem Underway.congr {r : Round} (h : Underway peers s r) (hwires : s'.wires = s.wires)
    (hframes : s'.frames = s.frames) (hclosing : s'.closing = false → s.closing = false) :
    Underway peers s' r where
  targets_eq := h.targets_eq
  carried := by
    rw [hwires, hframes]
    exact h.carried
  nodup_lines := h.nodup_lines
  stopped hopen := h.stopped (hclosing hopen)

/-- Whatever happens, the connections carry what they should. -/
theorem Coherent.stepped (h : Coherent peers s) (hs : s.Stepped m e s') : Coherent peers s' := by
  cases hs with
  | refused payload e =>
    exact ⟨h.closed, h.link, h.peers_eq, h.nodup_kept, h.known, h.whole,
      fun r hr => (h.underway r hr).congr rfl rfl id⟩
  | begun payload frame links hlength hround hactive hframe =>
    exact h.begun hactive hround payload frame
  | peer place e r target stage stage' wires hround hplace hnext =>
    exact h.put hround hplace hnext
  | settled r links outcomes hround hlink houtcomes => exact h.settled hround hlink houtcomes
  | close =>
    refine ⟨fun _ => rfl, fun hnone => ⟨rfl, (h.link hnone).2⟩, h.peers_eq, h.nodup_kept, h.known,
      h.whole, fun r hr => (h.underway r hr).congr rfl rfl ?_⟩
    intro hopen
    cases hopen
  | acceptFailed =>
    exact ⟨fun _ => rfl, h.link, h.peers_eq, h.nodup_kept, h.known, h.whole,
      fun r hr => (h.underway r hr).congr rfl rfl id⟩
  | release hclosing hround =>
    refine ⟨h.closed, fun _ => ⟨hclosing, hround⟩, ?_, ?_, ?_, ?_,
      fun r hr => (h.underway r hr).congr rfl rfl id⟩
    all_goals
      intro links hlink
      cases hlink

theorem Coherent.run (h : Coherent peers s) {es : List Event} (hrun : s.run m es = some s') :
    Coherent peers s' := by
  induction es generalizing s with
  | nil =>
    cases hrun
    exact h
  | cons e es ih =>
    obtain ⟨s₁, hstep, hrest⟩ := Option.bind_eq_some_iff.mp hrun
    exact ih (h.stepped (State.stepped_of_step hstep)) hrest

end EvictionBus.Mesh

import EvictionBus.Proofs.Relay.Clearing

/-!
# Frames that arrive at once

Nothing but its reader tells a run of a relay from the one in which all bytes of every frame of a
peer arrive at once, when the frame is complete, and the bytes of a frame that is never completed do
not arrive at all.
-/

namespace EvictionBus.Relay.State

variable {s : State} {key : Nat}

/-- A run with the bytes of a peer regrouped: the bytes of every frame arrive at once, when it is
complete. -/
def regrouped (s : State) (key : Nat) : List (Nat × Input) → List (Nat × Input)
  | [] => []
  | (now, input) :: inputs =>
    (now, s.regroupedAt now key input) :: (s.after now input).regrouped key inputs

/-- A peer that is in the table has not ended its side. -/
theorem not_ended_of_member (hs : s.Sound) (hkey : key ≤ s.lastKey) {inputs : List (Nat × Input)}
    (hm : (s.run inputs).peers.contains key = true) (now : Nat) :
    (now, Input.ended key) ∉ inputs := by
  induction inputs generalizing s with
  | nil => exact List.not_mem_nil
  | cons i inputs ih =>
    obtain ⟨time, input⟩ := i
    have hf := follows_after hs time input
    have hkey' := Nat.le_trans hkey hf.lastKey_le
    have hafter := (follows_run hf.sound inputs).member hkey' hm
    intro hin
    rcases List.mem_cons.1 hin with heq | hin
    · cases heq
      obtain ⟨c, hc⟩ := Option.isSome_iff_exists.1
        (hs.reading?_of_member (hf.member hkey hafter))
      change (s.inputEnded key).peers.contains key = true at hafter
      unfold inputEnded at hafter
      rw [hc] at hafter
      exact absurd hafter (by rw [disconnect_not_member]; exact Bool.false_ne_true)
    · exact ih hf.sound hkey' hm hin

/-- Until its side ends and unless its timer goes off, nothing but the reader of a peer tells whether
the bytes of its frames have arrived at once. -/
theorem run_regrouped (hs : s.Sound) {inputs : List (Nat × Input)}
    (hopen : ∀ now, (now, Input.ended key) ∉ inputs)
    (htimer : ∀ now, (now, Input.timer key) ∉ inputs) :
    (s.cleared key).run (s.regrouped key inputs) = (s.run inputs).cleared key := by
  induction inputs generalizing s with
  | nil => rfl
  | cons i inputs ih =>
    obtain ⟨now, input⟩ := i
    have hended : input ≠ .ended key := by
      rintro rfl
      exact hopen now List.mem_cons_self
    have hnot : input ≠ .timer key := by
      rintro rfl
      exact htimer now List.mem_cons_self
    show ((s.cleared key).after now _).run _ = _
    rw [after_cleared hs now hended fun he => absurd he hnot]
    exact ih (follows_after hs now input).sound
      (fun later hin => hopen later (List.mem_cons_of_mem _ hin))
      fun later hin => htimer later (List.mem_cons_of_mem _ hin)

/-- The bytes are whole frames within the limit. -/
def WholeFrames (limit : Nat) (b : Bytes) : Prop :=
  ∃ raws : List Bytes, b = raws.flatten ∧ ∀ raw ∈ raws, WholeFrame limit raw

theorem bytesFrom_regroupedAt (hs : s.Sound) {now : Nat} {input : Input} (hkey : key ≤ s.lastKey)
    (hm : (s.after now input).peers.contains key = true) :
    s.held key ++ input.bytesFrom key =
        (s.regroupedAt now key input).bytesFrom key ++ (s.after now input).held key ∧
      WholeFrames s.config.maxMessageSize ((s.regroupedAt now key input).bytesFrom key) := by
  have hnothing : WholeFrames s.config.maxMessageSize [] :=
    ⟨[], rfl, fun _ h => absurd h List.not_mem_nil⟩
  by_cases harrived : ∃ bytes, input = .arrived key bytes
  · obtain ⟨bytes, rfl⟩ := harrived
    obtain ⟨d, hd⟩ := Option.isSome_iff_exists.1
      ((follows_after hs now (.arrived key bytes)).sound.reading?_of_member hm)
    obtain ⟨hafter, -⟩ := (follows_after hs now _).sound.member_of_reading? hd
    obtain ⟨c, hc, hnext⟩ := feed_of_reading?_after hs now hkey hd
    obtain ⟨hget, -⟩ := hs.member_of_reading? hc
    have hbytes : Input.bytesFrom key (.arrived key bytes) = bytes := if_pos rfl
    rw [hbytes] at hnext ⊢
    obtain ⟨rest, hsplit, hframes, hend⟩ := Reader.feed_spec now bytes (hs.reader_sound hget)
    have hrest : d.input.held = rest := by
      rcases hend with ⟨next, hok, -, hheld⟩ | ⟨herror, -⟩
      · rw [hnext] at hok
        cases hok
        exact hheld
      · rw [hnext] at herror
        cases herror
    have hcompleted : (s.regroupedAt now key (.arrived key bytes)).bytesFrom key =
        ((c.input.feed s.readRules now bytes).1.map RawFrame.bytes).flatten := by
      show (if key = key then (if key = key then s.completed now key bytes else bytes) else []) = _
      rw [if_pos rfl, if_pos rfl, completed_of_ok hc hnext]
    rw [hcompleted]
    refine ⟨?_, _, rfl, fun raw hraw => ?_⟩
    · unfold State.held
      rw [hget, hafter]
      exact hsplit.trans (congrArg (_ ++ ·) hrest.symm)
    · obtain ⟨f, hf, rfl⟩ := List.mem_map.1 hraw
      exact (hframes f hf).whole
  · have hother : ∀ bytes, input ≠ .arrived key bytes := fun bytes he => harrived ⟨bytes, he⟩
    have hnone : (s.regroupedAt now key input).bytesFrom key = [] := by
      cases input with
      | arrived sender bytes => exact if_neg fun he => hother bytes (by rw [he])
      | _ => rfl
    rw [Input.bytesFrom_of_other hother, hnone, held_after hs now hother]
    exact ⟨List.append_nil _, hnothing⟩

/-- What arrives at once are the whole frames among the bytes that arrive; the rest is held. -/
theorem arrivedOver_regrouped (hs : s.Sound) (hkey : key ≤ s.lastKey)
    {inputs : List (Nat × Input)} (hm : (s.run inputs).peers.contains key = true) :
    s.held key ++ arrivedOver key inputs =
        arrivedOver key (s.regrouped key inputs) ++ (s.run inputs).held key ∧
      ∀ i ∈ s.regrouped key inputs, WholeFrames s.config.maxMessageSize (i.2.bytesFrom key) := by
  induction inputs generalizing s with
  | nil => exact ⟨List.append_nil _, fun _ h => absurd h List.not_mem_nil⟩
  | cons i inputs ih =>
    obtain ⟨now, input⟩ := i
    have hf := follows_after hs now input
    have hkey' := Nat.le_trans hkey hf.lastKey_le
    have hafter := (follows_run hf.sound inputs).member hkey' hm
    obtain ⟨hfirst, hwhole⟩ := bytesFrom_regroupedAt hs hkey hafter
    obtain ⟨hrest, hwholes⟩ := ih hf.sound hkey' hm
    rw [hf.config_eq] at hwholes
    refine ⟨?_, List.forall_mem_cons.2 ⟨hwhole, hwholes⟩⟩
    show s.held key ++ (input.bytesFrom key ++ arrivedOver key inputs) =
      ((s.regroupedAt now key input).bytesFrom key ++
        arrivedOver key ((s.after now input).regrouped key inputs)) ++
          ((s.after now input).run inputs).held key
    rw [← List.append_assoc, hfirst, List.append_assoc, hrest, List.append_assoc]

/-- The inputs other than bytes of a peer. -/
def unheard (key : Nat) (inputs : List (Nat × Input)) : List (Nat × Input) :=
  inputs.filter fun i => i.2.bytesFrom key = []

/-- Nothing that arrives from a peer that has been dropped has any effect. -/
theorem Gone.run_unheard (h : s.Gone key) (hs : s.Sound) (inputs : List (Nat × Input)) :
    s.run (unheard key inputs) = s.run inputs := by
  induction inputs generalizing s with
  | nil => rfl
  | cons i inputs ih =>
    obtain ⟨now, input⟩ := i
    have hf := follows_after hs now input
    have hrest := ih (h.follows hf) hf.sound
    unfold unheard at hrest ⊢
    by_cases hnone : input.bytesFrom key = []
    · rw [List.filter_cons, if_pos (decide_eq_true hnone)]
      exact hrest
    · rw [List.filter_cons, if_neg fun h => hnone (of_decide_eq_true h)]
      -- Bytes of the peer are not read.
      have hsame : s.after now input = s := by
        cases input with
        | arrived sender bytes =>
          by_cases he : sender = key
          · rw [he]
            exact receive_of_not_reading (hs.reading?_of_gone h) now bytes
          · exact absurd (if_neg he) hnone
        | _ => exact absurd rfl hnone
      rw [hsame] at hrest
      show _ = (s.after now input).run inputs
      rw [hsame]
      exact hrest

/-- A peer that has been dropped is not read from, so it does not matter what its reader holds. -/
theorem Gone.run_cleared (h : s.Gone key) (hs : s.Sound) (inputs : List (Nat × Input)) :
    (s.cleared key).run inputs = (s.run inputs).cleared key := by
  induction inputs generalizing s with
  | nil => rfl
  | cons i inputs ih =>
    obtain ⟨now, input⟩ := i
    have hf := follows_after hs now input
    have hnone := hs.reading?_of_gone h
    have hnone' : (s.cleared key).reading? key = none := by
      rw [reading?_cleared, hnone]
      rfl
    have hfirst : (s.cleared key).after now input = (s.after now input).cleared key := by
      by_cases hfrom : input.IsFrom key
      · rcases hfrom with rfl | ⟨bytes, rfl⟩
        · show (s.cleared key).inputEnded key = (s.inputEnded key).cleared key
          unfold inputEnded
          rw [hnone, hnone']
        · show (s.cleared key).receive now key bytes = (s.receive now key bytes).cleared key
          rw [receive_of_not_reading hnone, receive_of_not_reading hnone']
      · have hended : input ≠ .ended key := fun he => hfrom (.inl he)
        have hlate : s.late? now key = none := by
          unfold late?
          rw [hnone]
          rfl
        have hsame : s.regroupedAt now key input = input := by
          cases input with
          | arrived sender bytes =>
            exact congrArg _ (if_neg fun he => hfrom (.inr ⟨bytes, by rw [he]⟩))
          | _ => rfl
        have hcleared := after_cleared hs now hended fun _ => hlate
        rwa [hsame] at hcleared
    show ((s.cleared key).after now input).run inputs = _
    rw [hfirst]
    exact ih (h.follows hf) hf.sound

end EvictionBus.Relay.State

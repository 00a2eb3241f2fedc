import EvictionBus.Proofs.Mesh.Carried

/-!
# Addresses that are listed more than once

A member goes through its list of peers entry by entry, and keeps one connection for an address.
An address that is listed more than once gets a frame as often as it is listed, each time on
another connection. All of these connections but one are made anew for every frame.
-/

namespace EvictionBus

namespace MeshLinks

/-! ## Connections that are used again -/

/-- The first entry for an address takes the connection that is kept. -/
theorem mem_takeOut {kept : List (String × Nat)} {targets : List String} {target : String} {c : Nat}
    (hmem : target ∈ targets) (h : kept.lookup target = some c) :
    (target, some c) ∈ takeOut kept targets := by
  induction targets generalizing kept with
  | nil => exact absurd hmem List.not_mem_nil
  | cons t targets ih =>
    rw [takeOut]
    by_cases ht : target = t
    · rw [← ht, h]
      exact List.mem_cons_self
    · have hrest : target ∈ targets := (List.mem_cons.mp hmem).resolve_left ht
      refine List.mem_cons_of_mem _ (ih hrest ?_)
      rw [lookup_without, if_neg ht, h]

/-- All other entries have to connect. -/
theorem count_takeOut (kept : List (String × Nat)) (targets : List String) (target : String) :
    (takeOut kept targets).count (target, none) =
      targets.count target - if (kept.lookup target).isSome then 1 else 0 := by
  induction targets generalizing kept with
  | nil => simp [takeOut]
  | cons t targets ih =>
    rw [takeOut, List.count_cons, List.count_cons, ih, lookup_without]
    by_cases ht : target = t
    · subst ht
      cases kept.lookup target with
      | none => simp
      | some c => simp
    · have hentry : ((t, kept.lookup t) == (target, none)) = false :=
        beq_eq_false_iff_ne.mpr fun h => ht (congrArg Prod.fst h).symm
      have hhead : (t == target) = false := beq_eq_false_iff_ne.mpr fun h => ht h.symm
      rw [if_neg ht]
      simp [hentry, hhead]

/-! ## Copies of a frame -/

/-- The connections on which a frame has been written to an address, in the order of the list. -/
def takers (target : String) (outcomes : List (String × Outcome)) : List Nat :=
  (outcomes.filter fun o => o.1 = target).filterMap fun o => o.2.written?

theorem mem_takers {target : String} {outcomes : List (String × Outcome)} {c : Nat} :
    c ∈ takers target outcomes ↔ (target, .written c) ∈ outcomes := by
  unfold takers
  rw [List.mem_filterMap]
  constructor
  · rintro ⟨⟨t, outcome⟩, hmem, hc⟩
    obtain ⟨hin, ht⟩ := List.mem_filter.mp hmem
    obtain rfl : t = target := of_decide_eq_true ht
    cases outcome with
    | written d =>
      cases hc
      exact hin
    | _ => cases hc
  · intro hmem
    exact ⟨(target, .written c), List.mem_filter.mpr ⟨hmem, decide_eq_true rfl⟩, rfl⟩

theorem length_entries (target : String) (outcomes : List (String × Outcome)) :
    (outcomes.filter fun o => o.1 = target).length = (outcomes.map Prod.fst).count target := by
  rw [← List.countP_eq_length_filter, List.count, List.countP_map]
  apply List.countP_congr
  intro o _
  rw [decide_eq_true_eq, Function.comp_apply, beq_iff_eq]

theorem length_takers_le (target : String) (outcomes : List (String × Outcome)) :
    (takers target outcomes).length ≤ (outcomes.map Prod.fst).count target := by
  rw [← length_entries]
  exact List.length_filterMap_le ..

theorem length_takers {outcomes : List (String × Outcome)} {target : String}
    (h : ∀ o ∈ outcomes, o.1 = target → ∃ c, o.2 = .written c) :
    (takers target outcomes).length = (outcomes.map Prod.fst).count target := by
  rw [← length_entries, takers, List.length_filterMap_eq_countP, List.countP_eq_length]
  intro o ho
  obtain ⟨hmem, htarget⟩ := List.mem_filter.mp ho
  obtain ⟨c, hc⟩ := h o hmem (of_decide_eq_true htarget)
  rw [hc]
  rfl

theorem takers_cons (target : String) (o : String × Outcome) (outcomes : List (String × Outcome)) :
    takers target (o :: outcomes) =
      if o.1 = target then o.2.written?.toList ++ takers target outcomes
      else takers target outcomes := by
  unfold takers
  by_cases ho : o.1 = target
  · rw [List.filter_cons_of_pos (by simpa using ho), if_pos ho, List.filterMap_cons]
    cases o.2.written? <;> rfl
  · rw [List.filter_cons_of_neg (by simpa using ho), if_neg ho]

/-- The last connection on which the frame has been written to an address replaces all others. -/
theorem lookup_settle {outcomes : List (String × Outcome)} (h : ∀ o ∈ outcomes, o.2 ≠ .stopped)
    (m : MeshLinks) (delivered : Nat) (failures : List String) (target : String) :
    (m.settle delivered failures outcomes).1.kept.lookup target =
      (takers target outcomes).getLast?.or (m.kept.lookup target) := by
  induction outcomes generalizing m delivered failures with
  | nil =>
    rw [settle_nil_fst]
    rfl
  | cons o outcomes ih =>
    obtain ⟨d, f, heq⟩ := exists_settle_cons_fst (h o List.mem_cons_self) m delivered failures
      outcomes
    rw [heq, ih (fun x hx => h x (List.mem_cons_of_mem o hx)), takers_cons]
    by_cases ho : o.1 = target
    · rw [if_pos ho, back]
      cases o.2.written? with
      | none => rfl
      | some c =>
        rw [lookup_keep, if_pos ho.symm, Option.toList_some, List.singleton_append,
          List.getLast?_cons]
        cases (takers target outcomes).getLast? <;> rfl
    · rw [if_neg ho, lookup_back_of_ne fun h => ho h.symm]

end MeshLinks

namespace Mesh

open MeshLinks (takers)

variable {m : Member} {peers : List Address} {s s' : State}

theorem count_start (links : MeshLinks) (frame : Bytes) (target : String) :
    (links.plan.map fun p => (p.1, Stage.start frame p.2)).count (target, .dialing) =
      links.plan.count (target, none) := by
  rw [List.count, List.countP_map, List.count]
  apply List.countP_congr
  rintro ⟨t, kept?⟩ _
  cases kept? with
  | none => simp [Stage.start]
  | some c => simp [Stage.start]

theorem lines_done (outcomes : List (String × MeshLinks.Outcome)) :
    lines (outcomes.map fun o => (o.1, .done o.2)) = outcomes.filterMap fun o => o.2.written? := by
  unfold lines
  rw [List.filterMap_map]
  apply List.filterMap_congr
  rintro ⟨t, outcome⟩ _
  cases outcome <;> rfl

/-- What a member does about addresses that may be listed more than once. -/
structure Repeats (m : Member) (peers : List Address) (s : State) : Prop where
  /-- Only one entry for an address uses the connection that is kept. -/
  dials : ∀ payload s' r, s.round = none → s.step m (.send payload) = some s' →
    s'.round = some r → ∃ links, s.life.link = some links ∧ ∀ target,
      r.writes.count (target, .dialing) =
          (targets peers).count target - (if (links.kept.lookup target).isSome then 1 else 0) ∧
        ∀ c, links.kept.lookup target = some c → (target, .writing c r.frame) ∈ r.writes
  /-- The copies of a frame end up on different connections. -/
  copies : ∀ r outcomes, s.round = some r →
    r.writes = outcomes.map (fun o => (o.1, .done o.2)) → ∀ target,
      (takers target outcomes).Nodup ∧
        (takers target outcomes).length ≤ (targets peers).count target ∧
        ((∀ o ∈ outcomes, o.1 = target → ∃ c, o.2 = .written c) →
          (takers target outcomes).length = (targets peers).count target) ∧
        ∀ c ∈ takers target outcomes, ∃ earlier,
          s.wires.get? c = some ⟨target, earlier ++ r.frame⟩
  /-- The last one of them is kept. -/
  keeps : ∀ r outcomes s', s.round = some r →
    r.writes = outcomes.map (fun o => (o.1, .done o.2)) → (∀ o ∈ outcomes, o.2 ≠ .stopped) →
    s.step m .settle = some s' → ∃ links, s'.life.link = some links ∧
      ∀ target, links.kept.lookup target = (takers target outcomes).getLast?

/-- Whatever becomes of the frames, and however often an address is listed. -/
theorem repeats_run (m : Member) (peers : List Address) {es : List Event}
    (hrun : (State.initial peers).run m es = some s) : Repeats m peers s := by
  have h : Coherent peers s := (coherent_initial peers).run hrun
  constructor
  case dials =>
    intro payload s' r hround hstep hround'
    cases State.stepped_of_step hstep with
    | refused payload e =>
      change s.round = some r at hround'
      rw [hround] at hround'
      cases hround'
    | begun payload frame links hlength hround₀ hactive hframe =>
      cases hround'
      have hlink := Lifecycle.link_of_active hactive
      refine ⟨links, hlink, fun target => ⟨?_, fun c hc => ?_⟩⟩
      · rw [count_start, MeshLinks.plan, MeshLinks.count_takeOut, h.peers_eq links hlink]
        rfl
      · have hmem := h.known links hlink _ (MeshLinks.mem_of_lookup_eq_some hc)
        rw [targets, ← h.peers_eq links hlink] at hmem
        exact List.mem_map_of_mem (f := fun p => (p.1, Stage.start frame p.2))
          (MeshLinks.mem_takeOut hmem hc)
  case copies =>
    intro r outcomes hround hwrites target
    have hunder := h.underway r hround
    obtain ⟨before, -, hcarried⟩ := hunder.carried
    have htargets : outcomes.map Prod.fst = targets peers := by
      rw [← hunder.targets_eq, hwrites, List.map_map]
      rfl
    rw [← htargets]
    refine ⟨?_, MeshLinks.length_takers_le target outcomes, MeshLinks.length_takers, fun c hc => ?_⟩
    · have hnodup := hunder.nodup_lines
      rw [hwrites, lines_done] at hnodup
      exact hnodup.sublist (List.filter_sublist.filterMap _)
    · have hmem := mem_of_outcomes? (outcomes?_eq_some.mpr hwrites) (MeshLinks.mem_takers.mp hc)
      obtain ⟨carried, hwire, i, -, part, rfl, hframe⟩ := hcarried target _ c [] hmem rfl
      rw [List.append_nil] at hframe
      exact ⟨(before.drop i).flatten, by rw [hwire, hframe]⟩
  case keeps =>
    intro r outcomes s' hround hwrites hnot hstep
    obtain ⟨r', links, outcomes', hround', hlink, houtcomes, rfl⟩ := State.settle_eq_some hstep
    rw [hround] at hround'
    cases hround'
    rw [outcomes?_eq_some.mpr hwrites] at houtcomes
    cases houtcomes
    refine ⟨_, State.link_settled hlink r outcomes, fun target => ?_⟩
    rw [MeshLinks.sent, MeshLinks.lookup_settle hnot, h.lent_eq hlink]
    exact Option.or_none

/-- One peer that is listed twice, the second time in another spelling. -/
def twice : List Address :=
  [⟨none, none, "10.0.0.1", 7000⟩, ⟨some "bus", none, "10.0.0.1/eu", 7000⟩]

def writer : Member :=
  ⟨.ofIdentity ⟨List.replicate 16 22, List.length_replicate⟩, 5000⟩

/-- Two calls to send at which nothing fails. -/
def undisturbed : List Event :=
  [.send [1], .peer 0 (.connected 1), .peer 1 (.connected 2), .peer 0 (.took 100),
    .peer 1 (.took 100), .settle, .send [2], .peer 0 (.took 100), .peer 1 (.connected 3),
    .peer 1 (.took 100), .settle]

theorem repeats_run_undisturbed : ∃ s, (State.initial twice).run writer undisturbed = some s ∧
    Repeats writer twice s := by
  have hsome : ((State.initial twice).run writer undisturbed).isSome = true := by decide +kernel
  obtain ⟨s, hrun⟩ := Option.isSome_iff_exists.mp hsome
  exact ⟨s, hrun, repeats_run writer twice hrun⟩

/-- A frame with one byte of the writer's. -/
def oneByte (b : UInt8) : Bytes :=
  List.replicate 16 22 ++ [4, 1, 0, 0, b]

/-- The peer gets each of the two frames twice, and the connection that is kept for it after the
first frame is not the one that is kept after the second. -/
theorem copies_undisturbed :
    targets twice = ["10.0.0.1:7000", "10.0.0.1:7000"] ∧
    ((State.initial twice).run writer (undisturbed.take 6)).map
        (fun s => (s.wires.get? 1, s.wires.get? 2, s.life.link)) =
      some (some ⟨"10.0.0.1:7000", oneByte 1⟩, some ⟨"10.0.0.1:7000", oneByte 1⟩,
        some ⟨twice, [("10.0.0.1:7000", 2)]⟩) ∧
    ((State.initial twice).run writer undisturbed).map
        (fun s => (s.wires.get? 2, s.wires.get? 3, s.life.link)) =
      some (some ⟨"10.0.0.1:7000", oneByte 1 ++ oneByte 2⟩, some ⟨"10.0.0.1:7000", oneByte 2⟩,
        some ⟨twice, [("10.0.0.1:7000", 3)]⟩) := by
  exact ⟨by decide +kernel, by decide +kernel, by decide +kernel⟩

end Mesh

end EvictionBus

import Mathlib.Data.List.Forall2
import Mathlib.Data.List.Nodup
import EvictionBus.Transport.Mesh

/-!
# Connections kept and lent

A member of a mesh lends the connections that it keeps to a frame, and gets them back from the peers
at which the frame has been written. What becomes of the others can be read off the outcomes.
-/

namespace EvictionBus.MeshLinks

/-! ## Taking connections out -/

theorem lookup_cons_eq_ite (t : String) (e : String × Nat) (kept : List (String × Nat)) :
    (e :: kept).lookup t = if t = e.1 then some e.2 else kept.lookup t := by
  rw [List.lookup_cons]
  by_cases ht : t = e.1
  · rw [if_pos ht, beq_iff_eq.mpr ht]
  · rw [if_neg ht, beq_eq_false_iff_ne.mpr ht]

theorem mem_of_lookup_eq_some {kept : List (String × Nat)} {t : String} {c : Nat}
    (h : kept.lookup t = some c) : (t, c) ∈ kept := by
  obtain ⟨before, rest, rfl, -⟩ := List.lookup_eq_some_iff.mp h
  exact List.mem_append_right before List.mem_cons_self

theorem mem_without {target : String} {kept : List (String × Nat)} {e : String × Nat} :
    e ∈ without target kept ↔ e ∈ kept ∧ e.1 ≠ target := by
  rw [without, List.mem_filter, decide_eq_true_eq]

theorem without_cons (target : String) (e : String × Nat) (kept : List (String × Nat)) :
    without target (e :: kept) =
      if e.1 = target then without target kept else e :: without target kept := by
  unfold without
  by_cases he : e.1 = target
  · rw [if_pos he, List.filter_cons_of_neg (by simpa using he)]
  · rw [if_neg he, List.filter_cons_of_pos (by simpa using he)]

theorem lookup_without (target t : String) (kept : List (String × Nat)) :
    (without target kept).lookup t = if t = target then none else kept.lookup t := by
  induction kept with
  | nil => rw [without, List.filter_nil, List.lookup_nil, ite_self]
  | cons e kept ih =>
    rw [without_cons, lookup_cons_eq_ite]
    by_cases he : e.1 = target
    · rw [if_pos he, ih, ← he]
      by_cases ht : t = e.1
      · rw [if_pos ht, if_pos ht]
      · rw [if_neg ht, if_neg ht, if_neg ht]
    · rw [if_neg he, lookup_cons_eq_ite, ih]
      by_cases ht : t = e.1
      · rw [if_pos ht, if_pos ht, if_neg (ht ▸ he)]
      · rw [if_neg ht, if_neg ht]

theorem map_fst_takeOut (kept : List (String × Nat)) (targets : List String) :
    (takeOut kept targets).map Prod.fst = targets := by
  induction targets generalizing kept with
  | nil => rfl
  | cons target targets ih => rw [takeOut, List.map_cons, ih]

theorem mem_kept_of_mem_takeOut {kept : List (String × Nat)} {targets : List String} {t : String}
    {c : Nat} (h : (t, some c) ∈ takeOut kept targets) : (t, c) ∈ kept := by
  induction targets generalizing kept with
  | nil => exact absurd h List.not_mem_nil
  | cons target targets ih =>
    rw [takeOut, List.mem_cons, Prod.mk.injEq] at h
    rcases h with ⟨rfl, hc⟩ | h
    · exact mem_of_lookup_eq_some hc.symm
    · exact (mem_without.mp (ih h)).1

/-- A connection is taken out once. -/
theorem nodup_takeOut {kept : List (String × Nat)} (h : (kept.map Prod.snd).Nodup)
    (targets : List String) : ((takeOut kept targets).filterMap Prod.snd).Nodup := by
  induction targets generalizing kept with
  | nil => exact List.nodup_nil
  | cons target targets ih =>
    have hrest : ((takeOut (without target kept) targets).filterMap Prod.snd).Nodup :=
      ih (h.sublist (List.filter_sublist.map Prod.snd))
    rw [takeOut]
    cases hc : kept.lookup target with
    | none => rwa [List.filterMap_cons_none rfl]
    | some c =>
      rw [List.filterMap_cons_some (f := Prod.snd) rfl, List.nodup_cons]
      refine ⟨fun hmem => ?_, hrest⟩
      obtain ⟨⟨t, c'⟩, hplan, rfl⟩ := List.mem_filterMap.mp hmem
      -- The same connection would be kept for two addresses.
      have hthere := mem_without.mp (mem_kept_of_mem_takeOut hplan)
      have hsame := List.inj_on_of_nodup_map h hthere.1 (mem_of_lookup_eq_some hc) rfl
      exact hthere.2 (congrArg Prod.fst hsame)

/-! ## Keeping connections -/

variable {m m' : MeshLinks}

theorem lookup_keep (m : MeshLinks) (target t : String) (c : Nat) :
    (m.keep target c).kept.lookup t = if t = target then some c else m.kept.lookup t := by
  unfold keep
  rw [List.lookup_append, lookup_without, lookup_cons_eq_ite, List.lookup_nil]
  by_cases ht : t = target
  · rw [if_pos ht, if_pos ht, if_pos ht, Option.none_or]
  · rw [if_neg ht, if_neg ht, if_neg ht, Option.or_none]

theorem mem_kept_keep {target : String} {c : Nat} {e : String × Nat} :
    e ∈ (m.keep target c).kept ↔ e ∈ m.kept ∧ e.1 ≠ target ∨ e = (target, c) := by
  unfold keep
  rw [List.mem_append, mem_without, List.mem_singleton]

theorem nodup_keep (h : (m.kept.map Prod.fst).Nodup) (target : String) (c : Nat) :
    ((m.keep target c).kept.map Prod.fst).Nodup := by
  unfold keep
  rw [List.map_append, List.nodup_append]
  refine ⟨h.sublist (List.filter_sublist.map Prod.fst), List.nodup_singleton _, ?_⟩
  intro t ht t' ht' heq
  obtain ⟨e, he, rfl⟩ := List.mem_map.mp ht
  rw [List.map_singleton, List.mem_singleton] at ht'
  exact (mem_without.mp he).2 (heq.trans ht')

/-! ## Outcomes -/

/-- The connection on which a frame has been written. -/
def Outcome.written? : Outcome → Option Nat
  | .written c => some c
  | _ => none

/-- The connections on which a frame has been written, with their addresses. -/
def written (outcomes : List (String × Outcome)) : List (String × Nat) :=
  outcomes.filterMap fun o => o.2.written?.map fun c => (o.1, c)

/-- What is said about a peer that has not taken a frame. -/
def complaint? : String × Outcome → Option String
  | (target, .broken reason) => some s!"{target}: {reason.message}"
  | _ => none

theorem mem_written {outcomes : List (String × Outcome)} {t : String} {c : Nat} :
    (t, c) ∈ written outcomes ↔ (t, .written c) ∈ outcomes := by
  unfold written
  rw [List.mem_filterMap]
  constructor
  · rintro ⟨⟨target, outcome⟩, hmem, heq⟩
    obtain ⟨d, hd, heq⟩ := Option.map_eq_some_iff.mp heq
    cases heq
    cases outcome with
    | written c =>
      cases hd
      exact hmem
    | broken reason => cases hd
    | stopped => cases hd
  · intro hmem
    exact ⟨(t, .written c), hmem, rfl⟩

theorem lent_eq (h : ∀ e ∈ m.kept, e.1 ∈ m.peers.map Address.socketTarget) :
    m.lent = ofPeers m.peers := by
  unfold lent ofPeers
  rw [List.filter_eq_nil_iff.mpr]
  intro e he
  simpa using h e he

/-- A peer gives its connection back, if the frame has been written. -/
def back (m : MeshLinks) (o : String × Outcome) : MeshLinks :=
  match o.2.written? with
  | some c => m.keep o.1 c
  | none => m

theorem lookup_back_of_ne {o : String × Outcome} {t : String} (ht : t ≠ o.1) (m : MeshLinks) :
    (m.back o).kept.lookup t = m.kept.lookup t := by
  unfold back
  split
  · rw [lookup_keep, if_neg ht]
  · rfl

theorem settle_nil_fst (m : MeshLinks) (delivered : Nat) (failures : List String) :
    (m.settle delivered failures []).1 = m := by
  unfold settle
  split <;> rfl

theorem exists_settle_cons_fst {o : String × Outcome} (h : o.2 ≠ .stopped) (m : MeshLinks)
    (delivered : Nat) (failures : List String) (outcomes : List (String × Outcome)) :
    ∃ delivered' failures', (m.settle delivered failures (o :: outcomes)).1 =
      ((m.back o).settle delivered' failures' outcomes).1 := by
  obtain ⟨t, outcome⟩ := o
  cases outcome with
  | written c => exact ⟨delivered + 1, failures, rfl⟩
  | broken reason => exact ⟨delivered, _, rfl⟩
  | stopped => exact absurd rfl h

/-- What holds of the links at first and does not end when a connection is given back holds after
all outcomes. -/
theorem settle_induction {P : MeshLinks → Prop} {outcomes : List (String × Outcome)}
    (hback : ∀ m, ∀ o ∈ outcomes, P m → P (m.back o)) (h : P m) (delivered : Nat)
    (failures : List String) : P (m.settle delivered failures outcomes).1 := by
  induction outcomes generalizing m delivered failures with
  | nil =>
    rw [settle_nil_fst]
    exact h
  | cons o outcomes ih =>
    by_cases ho : o.2 = .stopped
    · obtain ⟨t, outcome⟩ := o
      cases ho
      exact h
    · obtain ⟨d, f, heq⟩ := exists_settle_cons_fst ho m delivered failures outcomes
      rw [heq]
      exact ih (fun m x hx => hback m x (List.mem_cons_of_mem o hx))
        (hback m o List.mem_cons_self h) d f

theorem peers_sent (m : MeshLinks) (outcomes : List (String × Outcome)) :
    (m.sent outcomes).1.peers = m.peers := by
  refine settle_induction (P := fun m' => m'.peers = m.peers) (m := m.lent) ?_ rfl 0 []
  intro m' o _ hpeers
  unfold back
  split <;> exact hpeers

theorem mem_kept_sent {outcomes : List (String × Outcome)} {t : String} {c : Nat}
    (h : (t, c) ∈ (m.sent outcomes).1.kept) :
    (t, c) ∈ m.lent.kept ∨ (t, .written c) ∈ outcomes := by
  revert h
  apply settle_induction
    (P := fun m' => (t, c) ∈ m'.kept → (t, c) ∈ m.lent.kept ∨ (t, .written c) ∈ outcomes) _ .inl
  intro m' o ho hm'
  unfold back
  split
  case _ d hd =>
    intro h
    rcases mem_kept_keep.mp h with ⟨h, -⟩ | heq
    · exact hm' h
    · cases heq
      exact .inr (mem_written.mp (List.mem_filterMap.mpr ⟨o, ho, by rw [hd]; rfl⟩))
  case _ => exact hm'

theorem nodup_kept_sent (h : (m.kept.map Prod.fst).Nodup) (outcomes : List (String × Outcome)) :
    ((m.sent outcomes).1.kept.map Prod.fst).Nodup := by
  apply settle_induction (P := fun m' => (m'.kept.map Prod.fst).Nodup)
  · intro m' o _ hm'
    unfold back
    split
    · exact nodup_keep hm' _ _
    · exact hm'
  · exact h.sublist (List.filter_sublist.map Prod.fst)

/-! ## Results -/

theorem settle_stopped {target : String} {outcomes : List (String × Outcome)}
    (h : (target, .stopped) ∈ outcomes) (m : MeshLinks) (delivered : Nat)
    (failures : List String) :
    (m.settle delivered failures outcomes).2 = .error .closed := by
  induction outcomes generalizing m delivered failures with
  | nil => exact absurd h List.not_mem_nil
  | cons o outcomes ih =>
    obtain ⟨t, outcome⟩ := o
    cases outcome with
    | stopped => rfl
    | written c =>
      have hrest : (target, .stopped) ∈ outcomes := by simpa using h
      exact ih hrest (m.keep t c) (delivered + 1) failures
    | broken reason =>
      have hrest : (target, .stopped) ∈ outcomes := by simpa using h
      exact ih hrest m delivered _

theorem settle_of_not_stopped {outcomes : List (String × Outcome)}
    (h : ∀ o ∈ outcomes, o.2 ≠ .stopped) (m : MeshLinks) (delivered : Nat)
    (failures : List String) :
    (m.settle delivered failures outcomes).2 =
      if delivered + (written outcomes).length = 0 ∧
          failures ++ outcomes.filterMap complaint? ≠ [] then
        .error (.communicationBroken
          (String.intercalate "; " (failures ++ outcomes.filterMap complaint?)))
      else .ok () := by
  induction outcomes generalizing m delivered failures with
  | nil =>
    simp only [settle, written, List.filterMap_nil, List.length_nil, Nat.add_zero, List.append_nil]
    split <;> rfl
  | cons o outcomes ih =>
    obtain ⟨t, outcome⟩ := o
    have hrest : ∀ o ∈ outcomes, o.2 ≠ .stopped := fun o ho => h o (List.mem_cons_of_mem _ ho)
    cases outcome with
    | stopped => exact absurd rfl (h _ List.mem_cons_self)
    | written c =>
      have hlen : delivered + (written ((t, .written c) :: outcomes)).length =
          delivered + 1 + (written outcomes).length := by
        simp only [written, List.filterMap_cons, Outcome.written?, Option.map_some,
          List.length_cons]
        omega
      rw [hlen]
      exact ih hrest (m.keep t c) (delivered + 1) failures
    | broken reason =>
      have hcomplaints : failures ++ ((t, .broken reason) :: outcomes).filterMap complaint? =
          (failures ++ [s!"{t}: {reason.message}"]) ++ outcomes.filterMap complaint? := by
        simp only [List.filterMap_cons, complaint?, List.append_assoc, List.singleton_append]
      rw [hcomplaints]
      exact ih hrest m delivered _

/-- One peer that has taken the frame is enough, and so is a list without peers. -/
theorem sent_eq_ok {outcomes : List (String × Outcome)} (h : ∀ o ∈ outcomes, o.2 ≠ .stopped)
    (htaken : (∃ t c, (t, .written c) ∈ outcomes) ∨ outcomes = []) (m : MeshLinks) :
    (m.sent outcomes).2 = .ok () := by
  unfold sent
  rw [settle_of_not_stopped h, if_neg]
  rintro ⟨hnone, hfailed⟩
  rcases htaken with ⟨t, c, hmem⟩ | rfl
  · have hpos : 0 < (written outcomes).length := List.length_pos_of_mem (mem_written.mpr hmem)
    omega
  · exact hfailed rfl

theorem sent_eq_broken {outcomes : List (String × Outcome)} (hsome : outcomes ≠ [])
    (h : ∀ o ∈ outcomes, ∃ reason, o.2 = .broken reason) (m : MeshLinks) :
    (m.sent outcomes).2 = .error (.communicationBroken
      (String.intercalate "; " (outcomes.filterMap complaint?))) := by
  have hnot : ∀ o ∈ outcomes, o.2 ≠ .stopped := by
    intro o ho
    obtain ⟨reason, hreason⟩ := h o ho
    rw [hreason]
    exact nofun
  have hnone : written outcomes = [] := by
    unfold written
    rw [List.filterMap_eq_nil_iff]
    intro o ho
    obtain ⟨reason, hreason⟩ := h o ho
    rw [hreason]
    rfl
  have hsaid : outcomes.filterMap complaint? ≠ [] := by
    obtain ⟨⟨t, outcome⟩, ho⟩ := List.exists_mem_of_ne_nil outcomes hsome
    obtain ⟨reason, rfl⟩ : ∃ reason, outcome = .broken reason := h (t, outcome) ho
    exact List.ne_nil_of_mem (List.mem_filterMap.mpr ⟨(t, .broken reason), ho, rfl⟩)
  unfold sent
  rw [settle_of_not_stopped hnot, if_pos]
  · rw [List.nil_append]
  · exact ⟨by rw [hnone]; rfl, hsaid⟩

/-! ## Peers beside each other -/

/-- Two entries for one address, which are the same unless it is the address `p`. -/
def AlikeBut {α : Type} (p : String) (a b : String × α) : Prop :=
  a.1 = b.1 ∧ (a.1 ≠ p → a.2 = b.2)

section

variable {α : Type} {p : String} {as bs : List (String × α)}

theorem AlikeBut.symm {a b : String × α} (h : AlikeBut p a b) : AlikeBut p b a :=
  ⟨h.1.symm, fun hb => (h.2 (h.1 ▸ hb)).symm⟩

theorem alikeBut_symm (h : List.Forall₂ (AlikeBut p) as bs) : List.Forall₂ (AlikeBut p) bs as :=
  (h.imp fun _ _ hab => AlikeBut.symm hab).flip

theorem alikeBut_set (h : List.Forall₂ (AlikeBut p) as bs) {a b : String × α}
    (hab : AlikeBut p a b) (place : Nat) :
    List.Forall₂ (AlikeBut p) (as.set place a) (bs.set place b) := by
  induction h generalizing place with
  | nil => exact .nil
  | cons hhead hrest ih =>
    cases place with
    | zero => exact .cons hab hrest
    | succ place => exact .cons hhead (ih place)

theorem alikeBut_set_left (h : List.Forall₂ (AlikeBut p) as bs) {place : Nat} {a : α}
    (hplace : as[place]? = some (p, a)) (a' : α) :
    List.Forall₂ (AlikeBut p) (as.set place (p, a')) bs := by
  induction h generalizing place with
  | nil => exact .nil
  | cons hhead hrest ih =>
    cases place with
    | zero =>
      cases hplace
      exact .cons ⟨hhead.1, fun hne => absurd rfl hne⟩ hrest
    | succ place => exact .cons hhead (ih hplace)

theorem alikeBut_getElem? (h : List.Forall₂ (AlikeBut p) as bs) {place : Nat} {a b : String × α}
    (ha : as[place]? = some a) (hb : bs[place]? = some b) : AlikeBut p a b := by
  induction h generalizing place with
  | nil => cases ha
  | cons hhead hrest ih =>
    cases place with
    | zero =>
      cases ha
      cases hb
      exact hhead
    | succ place => exact ih ha hb

/-- The plans for two tables with the same connections for all other addresses. -/
theorem alikeBut_takeOut {kept kept' : List (String × Nat)}
    (h : ∀ t, t ≠ p → kept.lookup t = kept'.lookup t) (targets : List String) :
    List.Forall₂ (AlikeBut p) (takeOut kept targets) (takeOut kept' targets) := by
  induction targets generalizing kept kept' with
  | nil => exact .nil
  | cons target targets ih =>
    refine .cons ⟨rfl, h target⟩ (ih ?_)
    intro t ht
    rw [lookup_without, lookup_without, h t ht]

end

/-- What becomes of a frame at one peer makes no difference to the connections of the others. -/
theorem lookup_settle_congr {p : String} {outcomes outcomes' : List (String × Outcome)}
    (h : List.Forall₂ (AlikeBut p) outcomes outcomes')
    (hnot : ∀ o ∈ outcomes, o.2 ≠ .stopped) (hnot' : ∀ o ∈ outcomes', o.2 ≠ .stopped)
    (hkept : ∀ t, t ≠ p → m.kept.lookup t = m'.kept.lookup t)
    (delivered delivered' : Nat) (failures failures' : List String) :
    ∀ t, t ≠ p → (m.settle delivered failures outcomes).1.kept.lookup t =
      (m'.settle delivered' failures' outcomes').1.kept.lookup t := by
  induction h generalizing m m' delivered delivered' failures failures' with
  | nil =>
    rw [settle_nil_fst, settle_nil_fst]
    exact hkept
  | @cons o o' outcomes outcomes' ho hrest ih =>
    obtain ⟨d, f, heq⟩ := exists_settle_cons_fst (hnot o List.mem_cons_self) m delivered failures
      outcomes
    obtain ⟨d', f', heq'⟩ := exists_settle_cons_fst (hnot' o' List.mem_cons_self) m' delivered'
      failures' outcomes'
    rw [heq, heq']
    apply ih (fun x hx => hnot x (List.mem_cons_of_mem o hx))
      (fun x hx => hnot' x (List.mem_cons_of_mem o' hx))
    -- The first entry leaves the other addresses as they are, or is the same on both sides.
    intro t ht
    by_cases hto : t = o.1
    · have hsame : o = o' := Prod.ext ho.1 (ho.2 (hto ▸ ht))
      rw [← hsame]
      unfold back
      split
      · rw [lookup_keep, lookup_keep, if_pos hto, if_pos hto]
      · exact hkept t ht
    · rw [lookup_back_of_ne hto, lookup_back_of_ne (ho.1 ▸ hto)]
      exact hkept t ht

end EvictionBus.MeshLinks

import EvictionBus.Proofs.Net.Happenings
import Mathlib.Data.List.Basic

/-!
# Steps are made of happenings

Everything that a world does, a step from outside or by itself, is a list of happenings. The calls
among them are the calls of the steps.
-/

namespace EvictionBus.Net

def Happening.isCall : Happening → Bool
  | .call .. => true
  | _ => false

/-- The call of a step, which is known by the number of the step. -/
def Step.calls (number : Nat) : Step → List Happening
  | .call node request => [.call node number request]
  | _ => []

namespace World

/-- Nothing has changed about the nodes. -/
structure Elsewhere (w v : World) : Prop where
  nodes : v.nodes = w.nodes
  returned : v.returned = w.returned
  lastConnection : w.lastConnection ≤ v.lastConnection

/-- One world comes from another by happenings with the given calls among them. -/
def Leads (w : World) (calls : List Happening) (v : World) : Prop :=
  ∃ hs, hs.filter Happening.isCall = calls ∧ w.run hs = v

variable {w u v : World} {calls late : List Happening}

namespace Leads

theorem refl (w : World) : Leads w [] w := ⟨[], rfl, rfl⟩

theorem trans (h : Leads w calls u) (hnext : Leads u late v) : Leads w (calls ++ late) v := by
  obtain ⟨hs, rfl, rfl⟩ := h
  obtain ⟨more, rfl, rfl⟩ := hnext
  exact ⟨hs ++ more, List.filter_append hs more, run_append w hs more⟩

theorem single (h : Happening) (hcalls : [h].filter Happening.isCall = calls) :
    Leads w calls (w.after h) :=
  ⟨[h], hcalls, rfl⟩

end Leads

theorem Elsewhere.leads (h : Elsewhere w v) : Leads w [] v := by
  have hafter : w.after (.elsewhere v) = v := by
    change w.surroundedBy v = v
    unfold surroundedBy
    rw [← h.nodes, ← h.returned, Nat.max_eq_right h.lastConnection]
  exact ⟨[.elsewhere v], rfl, hafter⟩

theorem leads_onNode {i : Nat} {n : Node} {move : Node → Option World} (h : Happening)
    (hcall : h.isCall = false) (hafter : w.after h = w.onNode i move)
    (hn : w.nodes[i]? = some n) (hmove : move n = some v) : Leads w [] v := by
  refine ⟨[h], by simp [hcall], ?_⟩
  change w.after h = v
  rw [hafter]
  unfold onNode
  rw [hn, Option.bind_some, hmove]
  rfl

/-! ## Moves -/

theorem elsewhere_moveOutside {k : Nat} (h : w.moveOutside k = some v) : Elsewhere w v := by
  unfold moveOutside at h
  obtain ⟨o, -, h⟩ := Option.bind_eq_some_iff.mp h
  dsimp only at h
  split at h
  · cases h
  · split at h
    · cases h
      exact ⟨rfl, rfl, Nat.le_refl _⟩
    · split at h
      · cases h
        exact ⟨rfl, rfl, Nat.le_refl _⟩
      · cases h

theorem elsewhere_moveRelayReader {r : RelayHost} {key : Nat} {e : PeerEnd}
    (h : w.moveRelayReader r key e = some v) : Elsewhere w v := by
  unfold moveRelayReader at h
  obtain ⟨c, -, h⟩ := Option.bind_eq_some_iff.mp h
  dsimp only at h
  split at h
  · cases h
    exact ⟨rfl, rfl, Nat.le_refl _⟩
  · split at h
    · cases h
      exact ⟨rfl, rfl, Nat.le_refl _⟩
    · split at h
      · cases h
        exact ⟨rfl, rfl, Nat.le_refl _⟩
      · cases h

theorem elsewhere_of_write {connection : Nat} {side : Side} {bytes rest : Bytes}
    (h : w.write connection side bytes = .ok (rest, v)) : Elsewhere w v := by
  obtain ⟨p, -, rfl⟩ := exists_pipe_of_write h
  exact ⟨rfl, rfl, Nat.le_refl _⟩

theorem elsewhere_moveRelayWriter {r : RelayHost} {key : Nat} {e : PeerEnd}
    (h : w.moveRelayWriter r key e = some v) : Elsewhere w v := by
  unfold moveRelayWriter at h
  dsimp only at h
  split at h
  · cases h
  · obtain ⟨c, -, h⟩ := Option.bind_eq_some_iff.mp h
    split at h
    · cases h
      exact ⟨rfl, rfl, Nat.le_refl _⟩
    · split at h
      · split at h
        · cases h
          exact ⟨rfl, rfl, Nat.le_refl _⟩
        · next hwrite =>
          split at h
          · cases h
            have hu := elsewhere_of_write hwrite
            exact ⟨hu.nodes, hu.returned, hu.lastConnection⟩
          · cases h
      · split at h
        · cases h
          exact ⟨rfl, rfl, Nat.le_refl _⟩
        · cases h

theorem eq_some_of_orElse {a b : Option World} (h : (a <|> b) = some v) :
    a = some v ∨ b = some v := by
  have hor : a.or b = some v := Option.orElse_eq_or.symm.trans h
  rcases Option.or_eq_some_iff.mp hor with h | ⟨-, h⟩
  · exact .inl h
  · exact .inr h

theorem elsewhere_moveRelay (h : w.moveRelay = some v) : Elsewhere w v := by
  unfold moveRelay at h
  obtain ⟨r, -, h⟩ := Option.bind_eq_some_iff.mp h
  obtain ⟨⟨key, e⟩, -, h⟩ := List.exists_of_findSome?_eq_some h
  rcases eq_some_of_orElse h with h | h
  · exact elsewhere_moveRelayReader h
  · exact elsewhere_moveRelayWriter h

theorem exists_of_moveNodes {move : World → Nat → Node → Option World}
    (h : w.moveNodes move = some v) : ∃ i n, w.nodes[i]? = some n ∧ move w i n = some v := by
  unfold moveNodes at h
  obtain ⟨⟨n, i⟩, hmem, h⟩ := List.exists_of_findSome?_eq_some h
  exact ⟨i, n, (List.mk_mem_zipIdx_iff_getElem?).mp hmem, h⟩

theorem leads_moveLink {i : Nat} {n : Node} (hn : w.nodes[i]? = some n)
    (h : w.moveLink i n = some v) : Leads w [] v := by
  have hplace : ∃ place, w.moveInlet i n place = some v := by
    unfold moveLink at h
    unfold moveInlet
    cases hlink : n.life.link with
    | none =>
      rw [hlink] at h
      cases h
    | some link =>
      rw [hlink] at h
      cases link with
      | multicast group => cases h
      | mesh links inflows =>
        obtain ⟨inflow, hmem, h⟩ := List.exists_of_findSome?_eq_some h
        obtain ⟨place, hplace⟩ := List.mem_iff_getElem?.mp hmem
        refine ⟨place, ?_⟩
        dsimp only
        rw [hplace]
        exact h
      | relay connection reader => exact ⟨0, h⟩
      | broker link => exact ⟨0, h⟩
  obtain ⟨place, hplace⟩ := hplace
  exact leads_onNode (.takeIn i place) rfl rfl hn hplace

/-- A move is one happening. -/
theorem leads_move (h : w.move = some v) : Leads w [] v := by
  unfold move at h
  rcases eq_some_of_orElse h with h | h
  · obtain ⟨k, -, h⟩ := List.exists_of_findSome?_eq_some h
    exact (elsewhere_moveOutside h).leads
  rcases eq_some_of_orElse h with h | h
  · exact (elsewhere_moveRelay h).leads
  rcases eq_some_of_orElse h with h | h
  · obtain ⟨i, n, hn, h⟩ := exists_of_moveNodes h
    exact leads_onNode (.proceed i) rfl rfl hn h
  rcases eq_some_of_orElse h with h | h
  · obtain ⟨i, n, hn, h⟩ := exists_of_moveNodes h
    exact leads_moveLink hn h
  · obtain ⟨i, n, hn, h⟩ := exists_of_moveNodes h
    exact leads_onNode (.turn i) rfl rfl hn h

theorem leads_settleWithin (fuel : Nat) (w : World) : Leads w [] (w.settleWithin fuel) := by
  induction fuel generalizing w with
  | zero => exact .refl w
  | succ fuel ih =>
    unfold settleWithin
    split
    · next hmove => exact (leads_move hmove).trans (ih _)
    · exact .refl w

theorem leads_passUntil (limit fuel : Nat) (w : World) : Leads w [] (w.passUntil limit fuel) := by
  have hclock : ∀ (w : World) now, Leads w [] { w with now := now } :=
    fun w now => Elsewhere.leads ⟨rfl, rfl, Nat.le_refl _⟩
  induction fuel generalizing w with
  | zero => exact hclock w limit
  | succ fuel ih =>
    unfold passUntil
    split
    · next t _ => exact ((hclock w t).trans (leads_settleWithin _ _)).trans (ih _)
    · exact hclock w limit

/-! ## Steps from outside -/

/-- A connection from outside reaches a member of a mesh that listens, or no node. -/
theorem leads_connect {target : String} {connection : Nat}
    (h : w.connect target = .ok (connection, v)) : Leads w [] v := by
  obtain ⟨a, listener, hl, -, rfl⟩ := exists_listener_of_connect h
  cases listener with
  | relay =>
    refine Elsewhere.leads ?_
    unfold accept
    cases w.newStream.2.relay with
    | none => exact ⟨rfl, rfl, Nat.le_succ _⟩
    | some r => exact ⟨rfl, rfl, Nat.le_succ _⟩
  | outside => exact Elsewhere.leads ⟨rfl, rfl, Nat.le_succ _⟩
  | node i =>
    obtain ⟨⟨b, found⟩, hfind, hnode⟩ := Option.map_eq_some_iff.mp hl
    cases hnode
    have hmem := List.mem_of_find?_eq_some hfind
    obtain ⟨n, hn, hlistens⟩ : ∃ n, w.nodes[i]? = some n ∧ nodeAddress? n = some b := by
      unfold listeners at hmem
      simp only [List.mem_append, Option.mem_toList, Option.map_eq_some_iff, Prod.mk.injEq,
        reduceCtorEq, and_false, exists_false, false_or, List.mem_filterMap] at hmem
      obtain ⟨⟨n, j⟩, hn, c, hlistens, rfl, heq⟩ := hmem
      cases heq
      exact ⟨n, List.mk_mem_zipIdx_iff_getElem?.mp hn, hlistens⟩
    refine leads_onNode (.dial i) rfl rfl hn ?_
    rw [hlistens]
    rfl

theorem leads_onOutside (w : World) (name : String) (f : World → Outside → World × Outside)
    (hf : ∀ o, Elsewhere w (f w o).1) : Leads w [] (w.onOutside name f) := by
  refine Elsewhere.leads ?_
  unfold onOutside
  split
  · exact ⟨rfl, rfl, Nat.le_refl _⟩
  · split
    · exact ⟨rfl, rfl, Nat.le_refl _⟩
    · next o _ => exact ⟨(hf o).nodes, (hf o).returned, (hf o).lastConnection⟩

theorem leads_apply (w : World) (number : Nat) (s : Net.Step) :
    Leads w (s.calls number) (w.apply number s).2 := by
  have hself : Elsewhere w w := ⟨rfl, rfl, Nat.le_refl _⟩
  cases s with
  | call node request => exact .single (.call node number request) rfl
  | advance millis => exact leads_passUntil _ _ w
  | dial name target =>
    change Leads w [] (w.dial name target).2
    unfold dial
    split
    · exact .refl w
    · cases hc : w.connect target with
      | error e => exact .refl w
      | ok r =>
        have hout : Elsewhere r.2 { r.2 with
          outside := r.2.outside ++ [⟨name, r.1, .dialer, false, true, [], [], false⟩] } :=
          ⟨rfl, rfl, Nat.le_refl _⟩
        exact (leads_connect hc).trans hout.leads
  | write name bytes =>
    unfold apply
    dsimp only
    refine w.leads_onOutside name _ fun o => ?_
    split
    · next hwrite => exact elsewhere_of_write hwrite
    · exact hself
  | finish name =>
    unfold apply
    dsimp only
    exact w.leads_onOutside name _ fun _ => ⟨rfl, rfl, Nat.le_refl _⟩
  | drop name =>
    unfold apply
    dsimp only
    exact w.leads_onOutside name _ fun _ => ⟨rfl, rfl, Nat.le_refl _⟩
  | pause name =>
    unfold apply
    dsimp only
    exact w.leads_onOutside name _ fun _ => hself
  | resume name =>
    unfold apply
    dsimp only
    exact w.leads_onOutside name _ fun _ => hself
  | unlisten => exact Elsewhere.leads ⟨rfl, rfl, Nat.le_refl _⟩
  | datagram target bytes =>
    change Leads w [] (w.datagram target bytes)
    unfold datagram
    split
    · split
      · next a _ _ => exact .single (.datagram ⟨a.port, bytes⟩) rfl
      · exact .refl w
    · exact .refl w
  | reachable value =>
    change Leads w [] (w.onMemory fun b => b.setReachable value)
    unfold onMemory
    split
    · exact Elsewhere.leads ⟨rfl, rfl, Nat.le_refl _⟩
    · exact .refl w
  | count exchange =>
    unfold apply
    dsimp only
    split <;> exact .refl w
  | silence _ => exact Elsewhere.leads ⟨rfl, rfl, Nat.le_refl _⟩
  | shutdown => exact Elsewhere.leads ⟨rfl, rfl, Nat.le_refl _⟩

/-- A step is made of happenings, and the only call among them is the one of the step. -/
theorem leads_step (w : World) (number : Nat) (s : Net.Step) :
    Leads w (s.calls number) (w.step number s).2 := by
  have h := (w.leads_apply number s).trans (leads_settleWithin moveLimit _)
  rwa [List.append_nil] at h

/-- Steps one after another, numbered from `number`. -/
def steps (w : World) (number : Nat) : List Net.Step → World
  | [] => w
  | s :: rest => (w.step number s).2.steps (number + 1) rest

/-- The calls of steps that are numbered from `number`. -/
def callsOver (number : Nat) : List Net.Step → List Happening
  | [] => []
  | s :: rest => s.calls number ++ callsOver (number + 1) rest

theorem leads_steps (w : World) (number : Nat) (ss : List Net.Step) :
    Leads w (callsOver number ss) (w.steps number ss) := by
  induction ss generalizing w number with
  | nil => exact .refl w
  | cons s ss ih => exact (w.leads_step number s).trans (ih _ _)

/-- The steps up to a number, and those from it on, have calls of different numbers. -/
theorem callNumbers_callsOver (number : Nat) (ss : List Net.Step) :
    (callNumbers (callsOver number ss)).Nodup ∧
      ∀ k ∈ callNumbers (callsOver number ss), number ≤ k := by
  induction ss generalizing number with
  | nil => exact ⟨List.nodup_nil, fun _ hk => absurd hk List.not_mem_nil⟩
  | cons s ss ih =>
    obtain ⟨hnodup, hle⟩ := ih (number + 1)
    have hrest : ∀ k ∈ callNumbers (callsOver (number + 1) ss), number ≤ k :=
      fun k hk => Nat.le_of_succ_le (hle k hk)
    unfold callsOver
    cases s with
    | call node request =>
      change (number :: callNumbers (callsOver (number + 1) ss)).Nodup ∧
        ∀ k ∈ number :: callNumbers (callsOver (number + 1) ss), number ≤ k
      refine ⟨List.nodup_cons.mpr ⟨fun hmem => ?_, hnodup⟩, ?_⟩
      · exact absurd (hle number hmem) (Nat.not_succ_le_self number)
      · intro k hk
        rcases List.mem_cons.mp hk with rfl | hk
        · exact Nat.le_refl _
        · exact hrest k hk
    | _ => exact ⟨hnodup, hrest⟩

theorem callNumbers_filter_isCall (hs : List Happening) :
    callNumbers (hs.filter Happening.isCall) = callNumbers hs := by
  unfold callNumbers
  rw [List.filterMap_filter]
  apply List.filterMap_congr
  intro h _
  cases h <;> rfl

/-- Steps are a run of happenings in which calls have different numbers. -/
theorem exists_run_steps (w : World) (ss : List Net.Step) :
    ∃ hs, w.steps 0 ss = w.run hs ∧ hs.filter Happening.isCall = callsOver 0 ss ∧
      (callNumbers hs).Nodup := by
  obtain ⟨hs, hcalls, hrun⟩ := w.leads_steps 0 ss
  refine ⟨hs, hrun.symm, hcalls, ?_⟩
  rw [← callNumbers_filter_isCall, hcalls]
  exact (callNumbers_callsOver 0 ss).1

end World

end EvictionBus.Net

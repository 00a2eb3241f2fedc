import EvictionBus.Proofs.Net.Refusals

/-!
# Calls to start that fail

A call to start that returns an error leaves a transport without a link as it was, but for a client
of a relay: that one is closed when connecting or greeting has failed.
-/

namespace EvictionBus.Net.World

variable {w u v : World} {hs hs' : List Happening} {i number : Nat} {n : Node}
  {request : Request} {e : TransportError}

/-- A transport without a link still has none, and is marked only if it is a client of a relay that
has an address: then connecting or greeting has failed. -/
def FailedToStart (n : Node) (i : Nat) (v : World) : Prop :=
  ∃ m, v.nodes[i]? = some m ∧ m.life.link = none ∧
    (m.life.closed = true ↔
      n.life.closed = true ∨ n.config.kind = .relay ∧ ∃ a, n.config.endpoint = .ok a)

theorem Becomes.failed_start {was : Option Work} {ds : List Datagram}
    (h : w.Becomes i number n was .start ds v) (hn : w.nodes[i]? = some n)
    (hlink : n.life.link = none) (hout : number ∉ w.returned.map Prod.fst)
    (hr : (number, .error e) ∈ v.returned) : FailedToStart n i v := by
  cases h with
  | refused reason hwas hds hrefuses =>
    have hclosed : n.life.closed = true := by
      cases hc : n.life.closed with
      | true => rfl
      | false =>
        have hmay : n.life.mayStart = .ok () := by simp [Lifecycle.mayStart, hc, hlink]
        rw [show n.life.mayStart = .error reason from hrefuses] at hmay
        cases hmay
    exact ⟨_, getElem?_finish hn number _, hlink, by simp [hclosed]⟩
  | ends u r f hmay hu hends =>
    obtain ⟨connections, -, hm⟩ := hu.exists_node hn
    have hslot := Continues.reach n ds connections
    have hnone : (n.reach ds connections).life.link = none := hslot.link_eq_none.mpr hlink
    have hmark : (n.reach ds connections).life.closed = n.life.closed := by simp [Node.reach]
    refine ⟨_, getElem?_finish_modifyLife hm f number r, ?_⟩
    dsimp only
    cases hends with
    | misconfigured reason hendpoint =>
      refine ⟨hnone, ?_⟩
      rw [id_eq, hmark]
      refine ⟨.inl, fun hor => ?_⟩
      rcases hor with hclosed | ⟨hkind, a, ha⟩
      · exact hclosed
      · obtain ⟨other, hother⟩ := hendpoint hkind
        rw [ha] at hother
        cases hother
    | unreached reason hendpoint =>
      have hfailed := Continues.startFailed n.config.kind (n.reach ds connections).life
      refine ⟨hfailed.link_eq_none.mpr hnone, ?_⟩
      cases hkind : n.config.kind with
      | relay => simp [Lifecycle.startFailed, Lifecycle.markClosed, hendpoint hkind]
      | _ => simp [Lifecycle.startFailed, hmark]
    | opened link hkind hopens =>
      have hmem : (number, .error e) ∈ w.returned ++ [(number, Except.ok ())] := by
        rw [← hu.returned]
        exact hr
      rcases List.mem_append.mp hmem with hmem | hmem
      · exact absurd (mem_fst hmem) hout
      · cases List.mem_singleton.mp hmem
  | waits u work hmay hu htask hkind hwork hendpoint hfollows =>
    have hmem : (number, .error e) ∈ w.returned := by
      rw [← hu.returned]
      exact hr
    exact absurd (mem_fst hmem) hout

/-- The call that a number belongs to. -/
theorem call_unique {j : Nat} {called : Request}
    (hnumbers : (callNumbers (hs ++ [.call j number called])).Nodup)
    (hcall : (number, request) ∈ callsOn i (hs ++ [.call j number called])) :
    j = i ∧ request = called := by
  have hnot : (number, request) ∉ callsOn i hs := fun hmem =>
    not_mem_callNumbers hnumbers ((map_fst_callsOn_sublist i hs).subset
      (mem_fst hmem))
  by_cases hij : j = i
  · subst hij
    rw [callsOn_call] at hcall
    rcases List.mem_append.mp hcall with hcall | hcall
    · exact absurd hcall hnot
    · cases List.mem_singleton.mp hcall
      exact ⟨rfl, rfl⟩
  · rw [callsOn_call_of_ne hij] at hcall
    exact absurd hcall hnot

/-- A call that returns from a turn is the one in hand. -/
theorem Held.answered {x : Node} {j k : Nat} {was : Option Work} {task : Task}
    {ds : List Datagram} {r : Except TransportError Unit} (h : Held hs w j k task x)
    (hnumbers : (callNumbers hs).Nodup) (hb : w.Becomes j k x was task ds v)
    (hcall : (number, request) ∈ callsOn i hs) (hout : number ∉ w.returned.map Prod.fst)
    (hr : (number, r) ∈ v.returned) : k = number ∧ j = i ∧ task = request.task := by
  obtain ⟨-, called, hlookup, htask⟩ :=
    lookup_of_unanswered (map_fst_callsOn_nodup hnumbers j) h.waiting
  have hk : k = number := by
    rcases hb.returned_eq with hsame | ⟨s, hreturned⟩
    · rw [hsame] at hr
      exact absurd (mem_fst hr) hout
    · rw [hreturned] at hr
      rcases List.mem_append.mp hr with hr | hr
      · exact absurd (mem_fst hr) hout
      · cases List.mem_singleton.mp hr
        rfl
  subst hk
  have hij : j = i := by
    apply Decidable.byContradiction
    intro hij
    exact not_mem_callsOn_of_ne hnumbers hij
      (mem_fst (mem_of_lookup hlookup))
      (mem_fst hcall)
  subst hij
  rw [lookup_of_mem (map_fst_callsOn_nodup hnumbers j) hcall] at hlookup
  cases hlookup
  exact ⟨rfl, rfl, htask.symm⟩

theorem Step.failed_start (hstep : Step hs w hs' v) (hl : Lived hs w)
    (hnumbers : (callNumbers hs').Nodup) (hcall : (number, .start) ∈ callsOn i hs')
    (hout : number ∉ w.returned.map Prod.fst) (hr : (number, .error e) ∈ v.returned)
    (hn : w.nodes[i]? = some n) (hlink : n.life.link = none) : FailedToStart n i v := by
  have hold : (number, .error e) ∉ w.returned :=
    fun hmem => hout (mem_fst hmem)
  cases hstep with
  | quiet v hq => exact absurd (hq.returned ▸ hr) hold
  | other => exact absurd hr hold
  | turns v j k called x rest ds hx hidle hqueue hb =>
    obtain ⟨rfl, rfl, htask⟩ :=
      (hl.held_of_turn hx hidle hqueue).answered hnumbers hb hcall hout hr
    rw [hx] at hn
    cases hn
    rw [htask] at hb
    exact hb.failed_start (getElem?_dequeue hx) hlink hout hr
  | goes v j k work x hx hwork hb =>
    obtain ⟨rfl, rfl, htask⟩ := (hl.held_of_current hx hwork).answered hnumbers hb hcall hout hr
    rw [hx] at hn
    cases hn
    rw [htask] at hb
    exact hb.failed_start hx hlink hout hr
  | begins v j k called x ds hx hfree hclose hb =>
    obtain ⟨rfl, rfl, htask⟩ :=
      (hl.held_of_call hnumbers hx hfree hclose).answered hnumbers hb hcall hout hr
    rw [hx] at hn
    cases hn
    rw [htask] at hb
    exact hb.failed_start hx hlink hout hr
  | waits => exact absurd hr hold
  | refuses j k payload reason =>
    rcases List.mem_append.mp hr with hr | hr
    · exact absurd hr hold
    · cases List.mem_singleton.mp hr
      exact absurd (call_unique hnumbers hcall).2 (by simp)
  | misses => exact absurd hr hold

/-- A call to close answers no call to start. -/
theorem Lived.not_start_of_close {j k : Nat} {r : Except TransportError Unit} (hl : Lived hs w)
    (hnumbers : (callNumbers (hs ++ [.call j k .close])).Nodup)
    (hcall : (number, .start) ∈ callsOn i (hs ++ [.call j k .close]))
    (hout : number ∉ w.returned.map Prod.fst) :
    (number, r) ∉ (w.call j k .close).returned := by
  have hold : (number, r) ∉ w.returned :=
    fun hmem => hout (mem_fst hmem)
  unfold World.call
  cases hx : w.nodes[j]? with
  | none => exact hold
  | some x =>
    obtain ⟨m, hm, hclosed, -, hbusy, hpath, hreturned⟩ := hl.stop hx
    have hstopped : (number, r) ∉
        ((w.modifyLife j Lifecycle.markClosed).stopWrites j).returned := by
      rcases hreturned with hsame | ⟨call, work, s, hcurrent, htask, hreturned⟩
      · rw [hsame]
        exact hold
      · rw [hreturned]
        intro hmem
        rcases List.mem_append.mp hmem with hmem | hmem
        · exact hold hmem
        · cases List.mem_singleton.mp hmem
          obtain ⟨-, called, hlookup, hcalled⟩ := lookup_of_unanswered
            (map_fst_callsOn_nodup (nodup_of_append hnumbers) j)
            (hl.held_of_current hx hcurrent).waiting
          have hmem := mem_of_lookup hlookup
          have hij : j = i := by
            apply Decidable.byContradiction
            intro hij
            have hlater : number ∈ (callsOn j (hs ++ [.call j k .close])).map Prod.fst := by
              rw [callsOn_append, List.map_append]
              exact List.mem_append_left _ (mem_fst hmem)
            exact not_mem_callsOn_of_ne hnumbers hij hlater
              (mem_fst hcall)
          subst hij
          have hboth := lookup_of_mem (map_fst_callsOn_nodup hnumbers j) hcall
          rw [lookup_of_mem (map_fst_callsOn_nodup hnumbers j)
            (by rw [callsOn_append]; exact List.mem_append_left _ hmem)] at hboth
          cases hboth
          rw [htask] at hcalled
          cases hcalled
    dsimp only
    split
    · exact hstopped
    · intro hmem
      unfold perform at hmem
      rw [hm] at hmem
      rcases (becomes_close ((w.modifyLife j Lifecycle.markClosed).stopWrites j) j k m).returned_eq
        with hsame | ⟨s, hreturned⟩
      · rw [hsame] at hmem
        exact hstopped hmem
      · rw [hreturned] at hmem
        rcases List.mem_append.mp hmem with hmem | hmem
        · exact hstopped hmem
        · cases List.mem_singleton.mp hmem
          exact absurd (call_unique hnumbers hcall).2 (by simp)

/-- Whenever a call to start returns an error on a transport without a link. -/
theorem Lived.failed_start {h : Happening} (hl : Lived hs w)
    (hnumbers : (callNumbers (hs ++ [h])).Nodup) (hcall : (number, .start) ∈ callsOn i (hs ++ [h]))
    (hout : number ∉ w.returned.map Prod.fst) (hr : (number, .error e) ∈ (w.after h).returned)
    (hn : w.nodes[i]? = some n) (hlink : n.life.link = none) : FailedToStart n i (w.after h) := by
  have hold : (number, .error e) ∉ w.returned :=
    fun hmem => hout (mem_fst hmem)
  have hearlier := nodup_of_append hnumbers
  have hquiet : Quiet w (w.after h) → FailedToStart n i (w.after h) :=
    fun hq => absurd (hq.returned ▸ hr) hold
  have hsame : callsOn i [h] = [] → (number, .start) ∈ callsOn i hs := by
    intro hnone
    rwa [callsOn_append, hnone, List.append_nil] at hcall
  cases h with
  | call j k called =>
    by_cases hclose : called = .close
    · subst hclose
      exact absurd hr (hl.not_start_of_close hnumbers hcall hout)
    · exact (hl.step_call hclose).failed_start hl hnumbers hcall hout hr hn hlink
  | turn j =>
    exact Step.failed_start (step_onNode fun n v hn hv => step_turn hl hn hv) hl hearlier
      (hsame rfl) hout hr hn hlink
  | proceed j =>
    exact Step.failed_start (step_onNode fun n v hn hv => step_proceed hl hn hv) hl hearlier
      (hsame rfl) hout hr hn hlink
  | takeIn j place => exact hquiet (w.quiet_takeIn j place)
  | failLink j => exact hquiet (w.quiet_failLink_after j)
  | failInflow j place => exact hquiet (w.quiet_failInflow_after j place)
  | dial j => exact hquiet (w.quiet_dial j)
  | datagram d => exact hquiet (.of_around (w.around_castDatagram d))
  | elsewhere v => exact hquiet (.of_nodes_eq rfl rfl)

end EvictionBus.Net.World

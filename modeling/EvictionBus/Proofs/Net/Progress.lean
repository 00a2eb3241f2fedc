import EvictionBus.Proofs.Net.Refusals

/-!
# Calls return

Once its time is over a call does not wait: each time it goes on there is less left to do, or it
returns. On a closed transport the calls after it return at their turns, so nothing has to happen
there but that calls go on and get their turns.
-/

namespace EvictionBus.Net.World

variable {w u v : World} {hs : List Happening} {i number : Nat} {n : Node}

/-! ## A call whose time is over -/

theorem isSome_moveDialing {target : String} {deadline : Nat} (hdue : deadline ≤ w.now) :
    (w.moveDialing i number n target deadline).isSome := by
  unfold moveDialing
  rw [if_pos hdue]
  split <;> rfl

theorem isSome_moveGreeting {target : String} {connection deadline : Nat} {received : Bytes}
    (hdue : deadline ≤ w.now) :
    (w.moveGreeting i number n target connection received deadline).isSome := by
  unfold moveGreeting
  dsimp only
  split
  · split <;> rfl
  · split
    · rfl
    · rfl

theorem isSome_moveWriting {connection deadline : Nat} {rest : Bytes} (hdue : deadline ≤ w.now) :
    (w.moveWriting i number n connection rest deadline).isSome := by
  unfold moveWriting
  split
  · rfl
  · rfl
  · rw [if_pos hdue]
    split <;> rfl

theorem isSome_movePeerWrite_dialing {target : String} {frame : Bytes} {deadline : Nat}
    (hdue : deadline ≤ w.now) : (w.movePeerWrite n target (.dialing frame deadline)).isSome := by
  unfold movePeerWrite
  dsimp only
  rw [if_pos hdue]
  split <;> rfl

theorem isSome_movePeerWrite {target : String} {connection deadline : Nat} {rest : Bytes}
    (hdue : deadline ≤ w.now) :
    (w.movePeerWrite n target (.writing connection rest deadline)).isSome := by
  unfold movePeerWrite
  dsimp only
  split
  · rfl
  · rfl
  · rw [if_pos hdue]
    split <;> rfl

theorem isSome_movePeerWrites {writes : List (String × PeerWrite)}
    (hunfinished : outcomes? writes = none) (hover : (Work.spreading writes).Over w.now) :
    (w.movePeerWrites n writes).isSome := by
  induction writes with
  | nil => cases hunfinished
  | cons entry rest ih =>
    obtain ⟨target, write⟩ := entry
    unfold movePeerWrites
    cases write with
    | dialing frame deadline =>
      have htime : deadline < w.now := hover deadline (by simp [Work.dueTimes])
      have hsome : (w.movePeerWrite n target (.dialing frame deadline)).isSome :=
        isSome_movePeerWrite_dialing (Nat.le_of_lt htime)
      obtain ⟨r, hr⟩ := Option.isSome_iff_exists.mp hsome
      rw [hr]
      rfl
    | writing connection left deadline =>
      have htime : deadline < w.now := hover deadline (by simp [Work.dueTimes])
      have hsome : (w.movePeerWrite n target (.writing connection left deadline)).isSome :=
        isSome_movePeerWrite (Nat.le_of_lt htime)
      obtain ⟨r, hr⟩ := Option.isSome_iff_exists.mp hsome
      rw [hr]
      rfl
    | done outcome =>
      have hrest : outcomes? rest = none := by
        simpa [outcomes?] using hunfinished
      obtain ⟨r, hr⟩ := Option.isSome_iff_exists.mp (ih hrest fun t ht =>
        hover t ((mem_dueTimes_append_cons [] rest (target, .done outcome)).mpr (.inr ht)))
      rw [hr]
      rfl

/-- A call whose time is over goes on. -/
theorem isSome_moveCall {work : Work} (hfits : n.Fits) (hcurrent : n.current = some (number, work))
    (hover : work.Over w.now) : (w.moveCall i n).isSome := by
  have hdue : ∀ t ∈ work.dueTimes, t ≤ w.now := fun t ht => Nat.le_of_lt (hover t ht)
  unfold moveCall
  rw [hcurrent]
  cases work with
  | connecting binding due result =>
    dsimp only
    rw [if_pos (hdue due (by simp [Work.dueTimes]))]
    cases result <;> rfl
  | dialing target deadline => exact isSome_moveDialing (hdue deadline (by simp [Work.dueTimes]))
  | greeting target connection received deadline =>
    exact isSome_moveGreeting (hdue deadline (by simp [Work.dueTimes]))
  | writing connection rest deadline =>
    exact isSome_moveWriting (hdue deadline (by simp [Work.dueTimes]))
  | spreading writes =>
    rw [Option.isSome_map]
    exact isSome_movePeerWrites (hfits.work number _ hcurrent).2 hover

/-! ## A closed transport is left by all its calls -/

theorem Becomes.now_eq {was : Option Work} {task : Task} {ds : List Datagram}
    (h : w.Becomes i number n was task ds v) : v.now = w.now := by
  cases h with
  | refused e _ _ _ => rfl
  | ends u r f _ hu _ => exact hu.now
  | waits u work _ hu _ _ _ _ _ => exact hu.now

/-- The call whose turn it is returns, or has less left to do. -/
theorem Becomes.less {work : Work} {task : Task} (h : w.Becomes i number n (some work) task [] v)
    (hn : w.nodes[i]? = some n) (hover : work.Over w.now) :
    ∃ m, v.nodes[i]? = some m ∧ m.queue = n.queue ∧
      (m.current = none ∨ ∃ later : Work, m.current = some (number, later) ∧
        later.left < work.left ∧ later.Over w.now) := by
  cases h with
  | refused e hwas _ _ => cases hwas
  | ends u r f _ hu hends =>
    obtain ⟨connections, -, hm⟩ := hu.exists_node hn
    exact ⟨_, getElem?_finish_modifyLife hm f number r, by simp [Node.reach], .inl rfl⟩
  | waits u later _ hu _ _ _ _ hfollows =>
    obtain ⟨connections, -, hm⟩ := hu.exists_node hn
    exact ⟨_, getElem?_wait hm number later, by simp [Node.reach],
      .inr ⟨later, rfl, hfollows.1, fun t ht => hover t (hfollows.2.1 hover t ht)⟩⟩

/-- The happenings with which the calls on a node return. -/
def Serves (i : Nat) (more : List Happening) : Prop :=
  ∀ h ∈ more, h = .proceed i ∨ h = .turn i

theorem Serves.callNumbers_eq {more : List Happening} (h : Serves i more) :
    callNumbers more = [] := by
  induction more with
  | nil => rfl
  | cons e more ih =>
    have hmore := ih fun x hx => h x (List.mem_cons_of_mem e hx)
    rcases h e List.mem_cons_self with rfl | rfl <;> exact hmore

theorem Serves.nodup {more : List Happening} (h : Serves i more)
    (hnumbers : (callNumbers hs).Nodup) : (callNumbers (hs ++ more)).Nodup := by
  rw [callNumbers_append, h.callNumbers_eq, List.append_nil]
  exact hnumbers

/-- A call whose time is over returns by going on. -/
theorem Lived.proceeds (hl : Lived hs w) (hnumbers : (callNumbers hs).Nodup)
    (hn : w.nodes[i]? = some n) (hclosed : n.life.closed = true)
    (hover : ∀ call work, n.current = some (call, work) → work.Over w.now) :
    ∃ more, Serves i more ∧ ∃ m, (w.run more).nodes[i]? = some m ∧ m.life.closed = true ∧
      m.current = none ∧ m.queue = n.queue := by
  cases hcurrent : n.current with
  | none => exact ⟨[], by simp [Serves], n, hn, hclosed, hcurrent, rfl⟩
  | some c =>
    obtain ⟨number, work⟩ := c
    -- What is left to do gets less with every step, and the time stays over.
    induction hleft : work.left using Nat.strongRecOn generalizing hs w n work with
    | ind left ih =>
      have hwork := hover number work hcurrent
      have hfits := (hl.nodes i n hn).living.fits
      obtain ⟨v, hv⟩ := Option.isSome_iff_exists.mp
        (isSome_moveCall (w := w) (i := i) hfits hcurrent hwork)
      have hb := becomes_moveCall hn hfits hcurrent hv
      have hafter : w.after (.proceed i) = v := by
        change w.onNode i (w.moveCall i) = v
        unfold onNode
        rw [hn, Option.bind_some, hv]
        rfl
      have hone : Serves i [.proceed i] := by simp [Serves]
      have hlater := (hl.path (.proceed i) (hone.nodup hnumbers)).lived hl (hone.nodup hnumbers)
      rw [hafter] at hlater
      obtain ⟨m, hm, hqueue, hless⟩ := hb.less hn hwork
      obtain ⟨x, hx, hstays⟩ := hb.stays_closed hn hcurrent hn hclosed
      rw [hm] at hx
      cases hx
      rcases hless with hnone | ⟨later, hmcurrent, hless, hlater'⟩
      · exact ⟨[.proceed i], hone, m, by rw [run_cons, hafter]; exact hm, hstays.closed, hnone,
          hqueue⟩
      · have hmover : ∀ call work, m.current = some (call, work) → work.Over v.now := by
          intro call work' hcurrent'
          rw [hmcurrent] at hcurrent'
          cases hcurrent'
          rw [hb.now_eq]
          exact hlater'
        obtain ⟨more, hmore, x, hx, hxclosed, hxcurrent, hxqueue⟩ :=
          ih later.left (hleft ▸ hless) hlater (hone.nodup hnumbers) hm hstays.closed hmover later
            hmcurrent rfl
        refine ⟨.proceed i :: more, ?_, x, by rw [run_cons, hafter]; exact hx, hxclosed, hxcurrent,
          hxqueue.trans hqueue⟩
        intro h hh
        rcases List.mem_cons.mp hh with rfl | hh
        · exact .inl rfl
        · exact hmore h hh

/-- The calls that wait return at their turns. -/
theorem Lived.turns (hl : Lived hs w) (hnumbers : (callNumbers hs).Nodup)
    (hn : w.nodes[i]? = some n) (hclosed : n.life.closed = true) (hcurrent : n.current = none) :
    ∃ more, Serves i more ∧ ∃ m, (w.run more).nodes[i]? = some m ∧ m.isBusy = false := by
  induction hqueue : n.queue generalizing hs w n with
  | nil => exact ⟨[], by simp [Serves], n, hn, n.isBusy_eq_false.mpr ⟨hcurrent, hqueue⟩⟩
  | cons c rest ih =>
    obtain ⟨number, request⟩ := c
    have hfits := (hl.held_of_turn hn hcurrent hqueue).living.fits
    have hb : (w.dequeue i).Becomes i number { n with queue := n.queue.tail } none request.task
        ((w.dequeue i).casting { n with queue := n.queue.tail } request) (w.after (.turn i)) := by
      rw [after_turn hn hcurrent hqueue]
      exact becomes_perform (getElem?_dequeue hn) hfits request
    obtain ⟨m, hm, hmclosed, hmcurrent, hmqueue, -⟩ := hb.of_closed (getElem?_dequeue hn) hclosed
    have hone : Serves i [.turn i] := by simp [Serves]
    have hlater := (hl.path (.turn i) (hone.nodup hnumbers)).lived hl (hone.nodup hnumbers)
    have hidle : m.current = none := hmcurrent.elim id fun h => absurd rfl h.1
    obtain ⟨more, hmore, x, hx, hfree⟩ := ih hlater (hone.nodup hnumbers) hm hmclosed hidle
      (hmqueue.trans (by rw [hqueue]; rfl))
    refine ⟨.turn i :: more, ?_, x, hx, hfree⟩
    intro h hh
    rcases List.mem_cons.mp hh with rfl | hh
    · exact .inr rfl
    · exact hmore h hh

/-- All calls on a closed transport have returned once the call whose turn it is has gone on, if
its time is over, and the others have got their turns. -/
theorem Lived.all_return (hl : Lived hs w) (hnumbers : (callNumbers hs).Nodup)
    (hn : w.nodes[i]? = some n) (hclosed : n.life.closed = true)
    (hover : ∀ call work, n.current = some (call, work) → work.Over w.now) :
    ∃ more, Serves i more ∧ ∀ c ∈ callsOn i hs, c.1 ∈ (w.run more).returned.map Prod.fst := by
  obtain ⟨early, hearly, m, hm, hmclosed, hcurrent, -⟩ := hl.proceeds hnumbers hn hclosed hover
  have hmid := hl.run early (hearly.nodup hnumbers)
  obtain ⟨late, hlate, x, hx, hfree⟩ := hmid.turns (hearly.nodup hnumbers) hm hmclosed hcurrent
  have hserves : Serves i (early ++ late) :=
    fun h hh => (List.mem_append.mp hh).elim (hearly h) (hlate h)
  have hend := hl.run (early ++ late) (hserves.nodup hnumbers)
  rw [← run_append] at hx
  refine ⟨early ++ late, hserves, fun c hc => ?_⟩
  obtain ⟨hidle, hempty⟩ := x.isBusy_eq_false.mp hfree
  have hwaiting := (hend.nodes i x hx).waiting
  rw [Node.waiting, Node.inHand, Node.queued, hidle, hempty] at hwaiting
  refine answered_of_unanswered_nil hwaiting c ?_
  rw [callsOn_append]
  exact List.mem_append_left _ hc

end EvictionBus.Net.World

import EvictionBus.Proofs.Net.Happenings
import Mathlib.Data.List.Basic

/-!
# Calls and their answers

A call has a number of its own, so it can be told which calls on a node have not returned yet, and
what the others have been answered, in the order in which they returned.
-/

namespace EvictionBus.Net

abbrev Returned := List (Nat × Except TransportError Unit)

variable {calls : List (Nat × Request)} {returned : Returned} {number : Nat} {request : Request}
  {r : Except TransportError Unit}

/-! ## Calls that have not returned -/

/-- The calls that have not returned, oldest first. -/
def unanswered (calls : List (Nat × Request)) (returned : Returned) : List (Nat × Task) :=
  (calls.filter fun c => c.1 ∉ returned.map Prod.fst).map fun c => (c.1, c.2.task)

theorem unanswered_call (h : number ∉ returned.map Prod.fst) (request : Request) :
    unanswered (calls ++ [(number, request)]) returned =
      unanswered calls returned ++ [(number, request.task)] := by
  unfold unanswered
  rw [List.filter_append, List.map_append]
  congr 1
  simp only [List.filter_cons, h, not_false_eq_true, decide_true, if_true, List.filter_nil,
    List.map_cons, List.map_nil]

theorem unanswered_other (h : number ∉ calls.map Prod.fst) (r : Except TransportError Unit) :
    unanswered calls (returned ++ [(number, r)]) = unanswered calls returned := by
  unfold unanswered
  congr 1
  apply List.filter_congr
  intro c hc
  have hne : c.1 ≠ number := fun he => h (List.mem_map.mpr ⟨c, hc, he⟩)
  simp [hne]

/-- A call that returns at once has never been waiting. -/
theorem unanswered_passed (h : number ∉ calls.map Prod.fst) (request : Request)
    (r : Except TransportError Unit) :
    unanswered (calls ++ [(number, request)]) (returned ++ [(number, r)]) =
      unanswered calls returned := by
  have hlast : ([(number, request)].filter fun c =>
      c.1 ∉ (returned ++ [(number, r)]).map Prod.fst) = [] := by simp
  rw [← unanswered_other h r]
  unfold unanswered
  rw [List.filter_append, hlast, List.append_nil]

theorem answered_of_unanswered_nil (h : unanswered calls returned = []) :
    ∀ c ∈ calls, c.1 ∈ returned.map Prod.fst := by
  intro c hc
  have hnone := List.filter_eq_nil_iff.mp (List.map_eq_nil_iff.mp h) c hc
  simpa using hnone

/-- When the oldest call returns the others are left. -/
theorem unanswered_answer {task : Task} {rest : List (Nat × Task)}
    (hcalls : (calls.map Prod.fst).Nodup) (h : unanswered calls returned = (number, task) :: rest)
    (r : Except TransportError Unit) :
    unanswered calls (returned ++ [(number, r)]) = rest := by
  unfold unanswered at h
  obtain ⟨c, later, hfilter, hc, hrest⟩ := List.map_eq_cons_iff.mp h
  have hnumber : c.1 = number := congrArg Prod.fst hc
  have hsub : ((c :: later).map Prod.fst).Sublist (calls.map Prod.fst) :=
    hfilter ▸ List.filter_sublist.map Prod.fst
  have hnodup := (hcalls.sublist hsub)
  rw [List.map_cons, List.nodup_cons] at hnodup
  have hboth : (calls.filter fun c => c.1 ∉ (returned ++ [(number, r)]).map Prod.fst) = later := by
    have hsplit :
        (fun c : Nat × Request => decide (c.1 ∉ (returned ++ [(number, r)]).map Prod.fst)) =
          fun c => decide (c.1 ≠ number) && decide (c.1 ∉ returned.map Prod.fst) := by
      funext c
      rw [Bool.eq_iff_iff]
      simp only [Bool.and_eq_true, decide_eq_true_eq, List.map_append, List.mem_append, not_or,
        List.map_cons, List.map_nil, List.mem_singleton]
      exact and_comm
    rw [hsplit, ← List.filter_filter, hfilter, List.filter_cons_of_neg (by simp [hnumber])]
    apply List.filter_eq_self.mpr
    intro d hd
    have hne : d.1 ≠ c.1 := fun he => hnodup.1 (List.mem_map.mpr ⟨d, hd, he⟩)
    simpa [← hnumber] using hne
  unfold unanswered
  rw [hboth, hrest]

/-- Calls return in the order in which they were made. -/
theorem answered_before {task : Task} {rest : List (Nat × Task)} {early late : List (Nat × Request)}
    (hcalls : (calls.map Prod.fst).Nodup) (h : unanswered calls returned = (number, task) :: rest)
    (hsplit : calls = early ++ (number, request) :: late) :
    ∀ c ∈ early, c.1 ∈ returned.map Prod.fst := by
  intro c hc
  apply Decidable.byContradiction
  intro hout
  have hmem : c ∈ early.filter fun c => c.1 ∉ returned.map Prod.fst :=
    List.mem_filter.mpr ⟨hc, by simpa using hout⟩
  obtain ⟨d, more, hd⟩ := List.exists_cons_of_ne_nil (List.ne_nil_of_mem hmem)
  have hhead : d.1 = number := by
    unfold unanswered at h
    rw [hsplit, List.filter_append, hd, List.cons_append, List.map_cons, List.cons.injEq] at h
    exact congrArg Prod.fst h.1
  have hearly : d ∈ early := (List.mem_filter.mp (hd ▸ List.mem_cons_self)).1
  rw [hsplit, List.map_append, List.nodup_append] at hcalls
  exact hcalls.2.2 _ (List.mem_map_of_mem hearly) number (by simp) hhead

theorem nodup_returned (hreturned : (returned.map Prod.fst).Nodup)
    (h : number ∉ returned.map Prod.fst) :
    ((returned ++ [(number, r)]).map Prod.fst).Nodup := by
  rw [List.map_append, List.nodup_append]
  refine ⟨hreturned, by simp, ?_⟩
  intro a ha b hb hab
  have hnumber : b = number := List.mem_singleton.mp hb
  exact h (hnumber ▸ hab ▸ ha)

/-! ## Answers -/

/-- What the calls have been answered, in the order in which they returned. -/
def answers (calls : List (Nat × Request)) (returned : Returned) :
    List (Request × Except TransportError Unit) :=
  returned.filterMap fun a => (calls.lookup a.1).map fun request => (request, a.2)

theorem lookup_eq_none (h : number ∉ calls.map Prod.fst) : calls.lookup number = none := by
  rw [List.lookup_eq_none_iff]
  intro c hc
  have hne : number ≠ c.1 := fun he => h (List.mem_map.mpr ⟨c, hc, he.symm⟩)
  simpa using hne

theorem lookup_of_mem (hcalls : (calls.map Prod.fst).Nodup) (h : (number, request) ∈ calls) :
    calls.lookup number = some request := by
  obtain ⟨early, late, rfl⟩ := List.append_of_mem h
  rw [List.map_append, List.nodup_append] at hcalls
  have hnone : early.lookup number = none :=
    lookup_eq_none fun hmem => hcalls.2.2 number hmem number (by simp) rfl
  rw [List.lookup_append, hnone]
  simp

theorem mem_of_lookup (h : calls.lookup number = some request) : (number, request) ∈ calls := by
  obtain ⟨early, late, hcalls, -⟩ := List.lookup_eq_some_iff.mp h
  exact hcalls ▸ List.mem_append_right early List.mem_cons_self

theorem answers_call (h : number ∉ returned.map Prod.fst) (request : Request) :
    answers (calls ++ [(number, request)]) returned = answers calls returned := by
  unfold answers
  apply List.filterMap_congr
  intro a ha
  have hne : a.1 ≠ number := fun he => h (List.mem_map.mpr ⟨a, ha, he⟩)
  have hlast : [(number, request)].lookup a.1 = none := by simpa using hne
  rw [List.lookup_append, hlast, Option.or_none]

theorem answers_other (h : number ∉ calls.map Prod.fst) (r : Except TransportError Unit) :
    answers calls (returned ++ [(number, r)]) = answers calls returned := by
  unfold answers
  rw [List.filterMap_append]
  simp [lookup_eq_none h]

theorem answers_answer (h : calls.lookup number = some request)
    (r : Except TransportError Unit) :
    answers calls (returned ++ [(number, r)]) = answers calls returned ++ [(request, r)] := by
  unfold answers
  rw [List.filterMap_append]
  simp [h]

theorem mem_answers (hcalls : (calls.map Prod.fst).Nodup) (hcall : (number, request) ∈ calls)
    (h : (number, r) ∈ returned) : (request, r) ∈ answers calls returned :=
  List.mem_filterMap.mpr ⟨(number, r), h, by rw [lookup_of_mem hcalls hcall]; rfl⟩

/-- The call that waits longest is a call on the node, about what it is said to be. -/
theorem lookup_of_unanswered {task : Task} {rest : List (Nat × Task)}
    (hcalls : (calls.map Prod.fst).Nodup) (h : unanswered calls returned = (number, task) :: rest) :
    number ∉ returned.map Prod.fst ∧
      ∃ request, calls.lookup number = some request ∧ request.task = task := by
  have hmem : (number, task) ∈ unanswered calls returned := h ▸ List.mem_cons_self
  obtain ⟨c, hc, heq⟩ := List.mem_map.mp hmem
  obtain ⟨hcall, hout⟩ := List.mem_filter.mp hc
  cases heq
  exact ⟨by simpa using hout, c.2, lookup_of_mem hcalls hcall, rfl⟩

/-- Whether a call to send has returned without an error. -/
def isSent (a : Request × Except TransportError Unit) : Bool :=
  a.1.task = .send && a.2.isOk

/-- Whether a call to start has returned without an error. -/
def isStarted (a : Request × Except TransportError Unit) : Bool :=
  a.1.task = .start && a.2.isOk

/-- How often a transport has been started. -/
def starts (answered : List (Request × Except TransportError Unit)) : Nat :=
  answered.countP isStarted

/-- How many payloads have been sent. -/
def sends (answered : List (Request × Except TransportError Unit)) : Nat :=
  answered.countP isSent

theorem starts_concat (answered : List (Request × Except TransportError Unit))
    (a : Request × Except TransportError Unit) :
    starts (answered ++ [a]) = starts answered + if isStarted a then 1 else 0 := by
  unfold starts
  rw [List.countP_append, List.countP_singleton]

theorem sends_concat (answered : List (Request × Except TransportError Unit))
    (a : Request × Except TransportError Unit) :
    sends (answered ++ [a]) = sends answered + if isSent a then 1 else 0 := by
  unfold sends
  rw [List.countP_append, List.countP_singleton]

end EvictionBus.Net

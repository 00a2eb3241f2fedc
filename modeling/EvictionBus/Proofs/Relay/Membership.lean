import EvictionBus.Proofs.Relay.Books
import Mathlib.Data.List.Induction
import Mathlib.Data.List.Sort

/-!
# What the table of peers tells about the calls on it

A table is only changed by calls, and what it holds for a key can be read off the calls made so far:
the last one that entered the key, if the key has not been removed since, and the names and evictions
that came after it.  `Entered` singles out these calls.  One call changes the entry of one key in a
known way, and by induction on the calls the whole table is what they say.
-/

namespace EvictionBus.Relay

namespace PeerTable

/-- The table after calls on an empty one. -/
def run (calls : List Call) : PeerTable :=
  calls.foldl (fun t c => (t.perform c).2) .empty

theorem run_concat (calls : List Call) (c : Call) :
    run (calls ++ [c]) = ((run calls).perform c).2 :=
  List.foldl_concat ..

/-! ## What calls say about a key -/

namespace Call

/-- The name that a call gives to a key. -/
def nameFor? (key : Nat) : Call → Option String
  | .setNickname k name => if k = key then some name else none
  | _ => none

/-- The key that a call enters. -/
def inserted? : Call → Option Nat
  | .insert key _ => some key
  | _ => none

/-- A call that neither enters a key nor removes it. -/
structure Keeps (key : Nat) (c : Call) : Prop where
  not_insert : ∀ p, c ≠ .insert key p
  not_remove : c ≠ .remove key

end Call

/-- The last of the names given to a key. -/
def lastName? (key : Nat) (calls : List Call) : Option String :=
  (calls.filterMap (Call.nameFor? key)).getLast?

/-- The keys entered, in the order of the calls. -/
def insertedKeys (calls : List Call) : List Nat :=
  calls.filterMap Call.inserted?

/-- `since` are the calls after the one by which a peer has been entered under a key, and the key has
neither been entered again nor removed by them. -/
structure Entered (key : Nat) (p : Peer) (since calls : List Call) : Prop where
  split : ∃ before, calls = before ++ .insert key p :: since
  keeps : ∀ c ∈ since, c.Keeps key

theorem lastName?_append (key : Nat) (xs ys : List Call) :
    lastName? key (xs ++ ys) = (lastName? key ys).or (lastName? key xs) := by
  unfold lastName?
  rw [List.filterMap_append, List.getLast?_append]

end PeerTable

namespace Peer

open PeerTable

variable {key : Nat} {c : Call}

/-- A peer after calls for its key: the last name counts, and every eviction. -/
def after (p : Peer) (key : Nat) (calls : List Call) : Peer where
  address := p.address
  nickname := (lastName? key calls).elim p.nickname fun name => s!"{name} ({p.address})"
  evictions := p.evictions + calls.count (.recordEviction key)

theorem after_append (p : Peer) (key : Nat) (xs ys : List Call) :
    p.after key (xs ++ ys) = (p.after key xs).after key ys := by
  unfold after
  rw [lastName?_append, List.count_append, Nat.add_assoc]
  cases lastName? key ys with
  | none => rw [Option.none_or]; rfl
  | some name => rfl

/-- Calls for other keys leave a peer as it is. -/
theorem after_of_key_ne (p : Peer) (h : c.key ≠ key) : p.after key [c] = p := by
  cases c with
  | insert k q => rfl
  | remove k => rfl
  | setNickname k name =>
    have hk : k ≠ key := h
    simp [after, lastName?, Call.nameFor?, hk]
  | recordEviction k =>
    have hk : k ≠ key := h
    simp [after, lastName?, Call.nameFor?, hk]

theorem after_setNickname (p : Peer) (key : Nat) (name : String) :
    p.after key [.setNickname key name] = { p with nickname := s!"{name} ({p.address})" } := by
  simp [after, lastName?, Call.nameFor?]

theorem after_recordEviction (p : Peer) (key : Nat) :
    p.after key [.recordEviction key] = { p with evictions := p.evictions + 1 } := by
  simp [after, lastName?, Call.nameFor?]

end Peer

namespace PeerTable

variable {key : Nat} {p q : Peer} {before since calls : List Call} {c : Call}

/-! ## One call -/

/-- A call for one key changes no other entry. -/
theorem get?_perform_of_ne (t : PeerTable) (h : key ≠ c.key) :
    (t.perform c).2.get? key = t.get? key := by
  cases c with
  | insert k p => exact (t.get?_insert k key p).trans (if_neg h)
  | remove k => exact (t.get?_erase k key).trans (if_neg h)
  | setNickname k name => exact (t.get?_modify k key _).trans (if_neg h)
  | recordEviction k => exact (t.get?_modify k key _).trans (if_neg h)

/-- A call that keeps a key changes its entry as it changes a peer. -/
theorem get?_perform_of_keeps (t : PeerTable) (h : c.Keeps key) :
    (t.perform c).2.get? key = (t.get? key).map fun p => p.after key [c] := by
  by_cases hkey : c.key = key
  · subst hkey
    cases c with
    | insert k p => exact absurd rfl (h.not_insert p)
    | remove k => exact absurd rfl h.not_remove
    | setNickname k name =>
      simp only [Call.key, Peer.after_setNickname]
      exact (t.get?_modify k k _).trans (if_pos rfl)
    | recordEviction k =>
      simp only [Call.key, Peer.after_recordEviction]
      exact (t.get?_modify k k _).trans (if_pos rfl)
  · rw [get?_perform_of_ne t (Ne.symm hkey)]
    simp only [Peer.after_of_key_ne _ hkey, Option.map_id_fun', id]

/-- Calls for a key that is absent return nothing and change nothing. -/
theorem perform_of_absent {t : PeerTable} (h : t.contains key = false) :
    t.perform (.remove key) = (.removed none, t) ∧
    (∀ name, t.perform (.setNickname key name) = (.named none, t)) ∧
    t.perform (.recordEviction key) = (.counted none, t) := by
  have hnone : t.get? key = none := Option.isSome_eq_false_iff.1 h |> Option.isNone_iff_eq_none.1
  have hmodify : ∀ f, t.modify key f = t := fun f => by
    apply KeyTable.ext_get?
    intro j
    rw [KeyTable.get?_modify]
    split
    next hj => rw [hj, hnone]; rfl
    next => rfl
  refine ⟨?_, fun name => ?_, ?_⟩
  · simp only [perform, hnone, KeyTable.erase_of_get?_eq_none hnone]
  · simp only [perform, setNickname, hmodify, nickname?, hnone, Option.map_none]
  · simp only [perform, recordEviction, hmodify, evictions?, hnone, Option.map_none]

/-- Calls for a key that is present return its peer, its new nickname and its new count. -/
theorem answer_of_present {t : PeerTable} (h : t.get? key = some q) :
    (t.perform (.remove key)).1 = .removed (some q) ∧
    (∀ name, (t.perform (.setNickname key name)).1 = .named (some s!"{name} ({q.address})")) ∧
    (t.perform (.recordEviction key)).1 = .counted (some (q.evictions + 1)) := by
  have hmodify : ∀ f, (t.modify key f).get? key = some (f q) := fun f => by
    rw [KeyTable.get?_modify, if_pos rfl, h, Option.map_some]
  refine ⟨?_, fun name => ?_, ?_⟩
  · simp only [perform, h]
  · simp only [perform, setNickname, nickname?, hmodify, Option.map_some]
  · simp only [perform, recordEviction, evictions?, hmodify, Option.map_some]

/-! ## A run of calls -/

theorem entered_concat_iff : Entered key p since (calls ++ [c]) ↔
    (since = [] ∧ c = .insert key p) ∨
      ∃ earlier, since = earlier ++ [c] ∧ c.Keeps key ∧ Entered key p earlier calls := by
  constructor
  · rintro ⟨⟨before, hsplit⟩, hkeeps⟩
    rcases List.eq_nil_or_concat since with rfl | ⟨earlier, d, rfl⟩
    · obtain ⟨-, hc⟩ := List.append_inj' hsplit rfl
      exact .inl ⟨rfl, List.singleton_inj.1 hc⟩
    · rw [List.concat_eq_append] at hsplit hkeeps ⊢
      rw [← List.cons_append, ← List.append_assoc] at hsplit
      obtain ⟨hcalls, hc⟩ := List.append_inj' hsplit rfl
      obtain rfl : c = d := List.singleton_inj.1 hc
      exact .inr ⟨earlier, rfl, hkeeps c (by simp),
        ⟨before, hcalls⟩, fun d hd => hkeeps d (List.mem_append_left _ hd)⟩
  · rintro (⟨rfl, rfl⟩ | ⟨earlier, rfl, hc, ⟨before, rfl⟩, hkeeps⟩)
    · exact ⟨⟨calls, rfl⟩, fun d hd => absurd hd List.not_mem_nil⟩
    · refine ⟨⟨before, by simp⟩, fun d hd => ?_⟩
      rcases List.mem_append.1 hd with hd | hd
      · exact hkeeps d hd
      · exact List.mem_singleton.1 hd ▸ hc

/-- The peer under a key is the one entered last, as the calls since then have changed it. -/
theorem get?_run_iff : (run calls).get? key = some q ↔
    ∃ p since, Entered key p since calls ∧ q = p.after key since := by
  -- The last call enters the key, removes it or keeps it.
  induction calls using List.reverseRecOn generalizing q with
  | nil =>
    constructor
    · intro h
      cases h
    · rintro ⟨p, since, ⟨⟨before, h⟩, -⟩, -⟩
      simp at h
  | append_singleton calls c ih =>
    rw [run_concat]
    simp only [entered_concat_iff]
    by_cases hinsert : ∃ p, c = .insert key p
    · obtain ⟨p, rfl⟩ := hinsert
      rw [show ((run calls).perform (.insert key p)).2.get? key = some p from
        ((run calls).get?_insert key key p).trans (if_pos rfl)]
      constructor
      · intro h
        exact ⟨p, [], .inl ⟨rfl, rfl⟩, (Option.some.inj h).symm⟩
      · rintro ⟨p', since, ⟨rfl, hc⟩ | ⟨earlier, rfl, hc, -⟩, rfl⟩
        · cases hc
          rfl
        · exact absurd rfl (hc.not_insert p)
    · by_cases hremove : c = .remove key
      · subst hremove
        rw [show ((run calls).perform (.remove key)).2.get? key = none from
          ((run calls).get?_erase key key).trans (if_pos rfl)]
        constructor
        · intro h
          cases h
        · rintro ⟨p, since, ⟨-, hc⟩ | ⟨earlier, -, hc, -⟩, -⟩
          · cases hc
          · exact absurd rfl hc.not_remove
      · have hkeeps : c.Keeps key := ⟨fun p hp => hinsert ⟨p, hp⟩, hremove⟩
        rw [get?_perform_of_keeps _ hkeeps, Option.map_eq_some_iff]
        constructor
        · rintro ⟨r, hr, rfl⟩
          obtain ⟨p, since, hentered, rfl⟩ := ih.1 hr
          exact ⟨p, since ++ [c], .inr ⟨since, rfl, hkeeps, hentered⟩,
            (p.after_append key since [c]).symm⟩
        · rintro ⟨p, since, ⟨-, hc⟩ | ⟨earlier, rfl, -, hentered⟩, rfl⟩
          · exact absurd ⟨p, hc⟩ hinsert
          · exact ⟨p.after key earlier, ih.2 ⟨p, earlier, hentered, rfl⟩,
              (p.after_append key earlier [c]).symm⟩

/-- Of the calls that enter a key there is a last one. -/
theorem exists_entered (hsplit : calls = before ++ .insert key p :: since)
    (hremove : .remove key ∉ since) : ∃ p since, Entered key p since calls := by
  induction since using List.reverseRecOn generalizing calls with
  | nil => exact ⟨p, [], ⟨before, hsplit⟩, fun d hd => absurd hd List.not_mem_nil⟩
  | append_singleton since c ih =>
    rw [← List.cons_append, ← List.append_assoc] at hsplit
    subst hsplit
    simp only [entered_concat_iff]
    by_cases hinsert : ∃ p, c = .insert key p
    · obtain ⟨p', rfl⟩ := hinsert
      exact ⟨p', [], .inl ⟨rfl, rfl⟩⟩
    · have hkeeps : c.Keeps key :=
        ⟨fun p hp => hinsert ⟨p, hp⟩, fun hc => hremove (by simp [hc])⟩
      obtain ⟨p', earlier, hentered⟩ := ih rfl fun h => hremove (List.mem_append_left _ h)
      exact ⟨p', earlier ++ [c], .inr ⟨earlier, rfl, hkeeps, hentered⟩⟩

theorem contains_run_iff : (run calls).contains key = true ↔
    ∃ before p since, calls = before ++ .insert key p :: since ∧ .remove key ∉ since := by
  have hsome : (run calls).contains key = true ↔ ∃ p since, Entered key p since calls := by
    unfold KeyTable.contains
    rw [Option.isSome_iff_exists]
    simp only [get?_run_iff]
    constructor
    · rintro ⟨q, p, since, h, -⟩
      exact ⟨p, since, h⟩
    · rintro ⟨p, since, h⟩
      exact ⟨_, p, since, h, rfl⟩
  rw [hsome]
  constructor
  · rintro ⟨p, since, ⟨before, hsplit⟩, hkeeps⟩
    exact ⟨before, p, since, hsplit, fun h => (hkeeps _ h).not_remove rfl⟩
  · rintro ⟨before, p, since, hsplit, hremove⟩
    exact exists_entered hsplit hremove

/-- A counter that has started at zero is never above the number of calls. -/
theorem evictions_le_length (hzero : ∀ key p, .insert key p ∈ calls → p.evictions = 0)
    (h : (run calls).get? key = some q) : q.evictions ≤ calls.length := by
  obtain ⟨p, since, ⟨⟨before, rfl⟩, -⟩, rfl⟩ := get?_run_iff.1 h
  have hp : p.evictions = 0 := hzero key p (by simp)
  have hcount : since.count (.recordEviction key) ≤ since.length := List.count_le_length
  simp only [Peer.after, hp, List.length_append, List.length_cons]
  omega

/-! ## Lists of peers -/

/-- The line of a report for a peer. -/
def line (since : Nat → String) (e : Nat × Peer) : String :=
  reportLine e.1 e.2 (since e.1)

/-- Whatever order the peers are listed in, sorting them by their keys gives the report. -/
theorem report_of_listed (t : PeerTable) (since : Nat → String) {es : List (Nat × Peer)}
    (hnodup : es.Nodup) (hmem : ∀ key q, (key, q) ∈ es ↔ t.get? key = some q) :
    (es.mergeSort fun a b => decide (a.1 ≤ b.1)).map (line since) = t.report since := by
  have hperm : es.Perm t.entries := by
    rw [List.perm_ext_iff_of_nodup hnodup t.nodup_entries]
    rintro ⟨key, q⟩
    rw [hmem, KeyTable.get?_eq_some_iff]
  have hsorted : (es.mergeSort fun a b => decide (a.1 ≤ b.1)).Pairwise
      fun a b => decide (a.1 ≤ b.1) = true :=
    List.pairwise_mergeSort
      (fun a b c => by simp only [decide_eq_true_eq]; exact Nat.le_trans)
      (fun a b => by simp only [Bool.or_eq_true, decide_eq_true_eq]; exact Nat.le_total a.1 b.1) es
  have hsort : (es.mergeSort fun a b => decide (a.1 ≤ b.1)) = t.entries := by
    -- Entries with one key are the same entry, so that there is one order only.
    refine List.Perm.eq_of_pairwise (fun a b ha hb hab hba => ?_)
      (hsorted.imp of_decide_eq_true) (t.sorted.imp Nat.le_of_lt)
      ((List.mergeSort_perm es _).trans hperm)
    have hkey : a.1 = b.1 := Nat.le_antisymm hab hba
    have hta : t.get? a.1 = some a.2 := (hmem a.1 a.2).1 (List.mem_mergeSort.1 ha)
    have htb : t.get? b.1 = some b.2 := (t.get?_eq_some_iff b.1 b.2).2 hb
    rw [hkey, htb] at hta
    exact Prod.ext hkey (Option.some.inj hta).symm
  rw [hsort]
  rfl

end PeerTable

/-! ## Keys that a relay gives out -/

namespace State

/-- The keys given out to so many connections, one after another. -/
def nextKeys (s : State) : Nat → List Nat × State
  | 0 => ([], s)
  | n + 1 =>
    let (key, s) := s.nextKey
    let (keys, s) := s.nextKeys n
    (key :: keys, s)

theorem nextKeys_eq (s : State) (n : Nat) :
    (s.nextKeys n).1 = List.range' (s.lastKey + 1) n := by
  induction n generalizing s with
  | zero => rfl
  | succ n ih => exact congrArg (_ :: ·) (ih _)

theorem nextKeys_sorted (s : State) (n : Nat) : (s.nextKeys n).1.Pairwise (· < ·) := by
  rw [nextKeys_eq]
  exact List.pairwise_lt_range'

end State

/-- Keys in ascending order that are all among others in ascending order stand there in that order. -/
theorem sublist_of_ascending {xs ys : List Nat} (hx : xs.Pairwise (· < ·))
    (hy : ys.Pairwise (· < ·)) (h : xs ⊆ ys) : xs.Sublist ys :=
  List.sublist_of_subperm_of_pairwise (r := (· ≤ ·))
    (List.subperm_of_subset (hx.imp Nat.ne_of_lt) h)
    (hx.imp Nat.le_of_lt) (hy.imp Nat.le_of_lt)

/-- A relay reports its peers in the order in which they have come. -/
theorem State.Books.keys_sublist {s : State} {l : Ledger} (h : s.Books l) :
    s.peers.keys.Sublist (s.accepted ++ l.arriving) := by
  refine sublist_of_ascending s.peers.sorted_keys ?_ fun key hkey => ?_
  · have hrange := List.pairwise_lt_range' (s := 1) (n := s.lastKey)
    rw [← h.accepted_eq] at hrange
    exact (List.pairwise_append.1 hrange).1
  · exact ((h.member_iff key).1 ((s.peers.mem_keys_iff key).1 hkey)).1

namespace PeerTable

variable {key : Nat} {p : Peer} {since calls : List Call}

theorem mem_insertedKeys {before : List Call} (h : calls = before ++ .insert key p :: since) :
    key ∈ insertedKeys calls :=
  List.mem_filterMap.2 ⟨.insert key p, by simp [h], rfl⟩

/-- What a table holds, lists and answers, as the calls on it so far say. -/
structure Tells (calls : List Call) (t : PeerTable) : Prop where
  /-- A key is present if it has been entered and not been removed since. -/
  contains_iff : ∀ key, t.contains key = true ↔
    ∃ before p since, calls = before ++ .insert key p :: since ∧ .remove key ∉ since
  /-- Its peer is the one entered last, changed by the names and evictions since. -/
  get?_iff : ∀ key q, t.get? key = some q ↔
    ∃ p since, Entered key p since calls ∧ q = p.after key since
  /-- A peer entered when it connected goes by its address until it is named. -/
  connected : ∀ key address since, Entered key (.ofAddress address) since calls →
    t.nickname? key =
      some ((lastName? key since).elim address fun name => s!"{name} ({address})") ∧
    t.evictions? key = some (since.count (.recordEviction key))
  /-- Calls for an absent key return nothing and change nothing. -/
  absent : ∀ key, t.contains key = false →
    t.perform (.remove key) = (.removed none, t) ∧
    (∀ name, t.perform (.setNickname key name) = (.named none, t)) ∧
    t.perform (.recordEviction key) = (.counted none, t)
  /-- Calls for a key that is present return its peer, its new nickname and its new count. -/
  present : ∀ key q, t.get? key = some q →
    (t.perform (.remove key)).1 = .removed (some q) ∧
    (∀ name, (t.perform (.setNickname key name)).1 = .named (some s!"{name} ({q.address})")) ∧
    (t.perform (.recordEviction key)).1 = .counted (some (q.evictions + 1))
  /-- A call for one key changes no other entry. -/
  others : ∀ c key, key ≠ c.key → (t.perform c).2.get? key = t.get? key
  recipients : ∀ key, (t.recipients key).Nodup ∧
    ∀ j, j ∈ t.recipients key ↔ t.contains j = true ∧ j ≠ key
  keys : t.keys.Nodup ∧ (∀ j, j ∈ t.keys ↔ t.contains j = true) ∧ t.size = t.keys.length
  /-- A report has one line for each peer, in the order of the keys. -/
  report : ∀ since : Nat → String, ∃ es : List (Nat × Peer), t.report since = es.map (line since) ∧
    es.Pairwise (fun a b => a.1 < b.1) ∧ ∀ key q, (key, q) ∈ es ↔ t.get? key = some q
  /-- It is what sorting gives, in whatever order the peers are listed first. -/
  report_sorted : ∀ (since : Nat → String) (es : List (Nat × Peer)), es.Nodup →
    (∀ key q, (key, q) ∈ es ↔ t.get? key = some q) →
    (es.mergeSort fun a b => decide (a.1 ≤ b.1)).map (line since) = t.report since
  /-- When the keys are those that a relay gives out, their order is that of the connections. -/
  in_turn : ∀ (s : State) n, (insertedKeys calls).Sublist (s.nextKeys n).1 →
    t.keys.Sublist (insertedKeys calls)

theorem nickname?_of_entered {address : String}
    (h : Entered key (.ofAddress address) since calls) :
    (run calls).nickname? key =
      some ((lastName? key since).elim address fun name => s!"{name} ({address})") ∧
    (run calls).evictions? key = some (since.count (.recordEviction key)) := by
  have hget : (run calls).get? key = some ((Peer.ofAddress address).after key since) :=
    get?_run_iff.2 ⟨_, since, h, rfl⟩
  constructor
  · rw [nickname?, hget]
    rfl
  · rw [evictions?, hget]
    simp [Peer.after, Peer.ofAddress]

/-- After any calls, the table is what these calls say. -/
theorem tells_run (calls : List Call) : Tells calls (run calls) where
  contains_iff _ := contains_run_iff
  get?_iff _ _ := get?_run_iff
  connected _ _ _ := nickname?_of_entered
  absent _ := perform_of_absent
  present _ _ := answer_of_present
  others c key := get?_perform_of_ne (run calls)
  recipients key := ⟨nodup_recipients _ key, mem_recipients_iff _ key⟩
  keys := ⟨(run calls).sorted_keys.imp Nat.ne_of_lt, (run calls).mem_keys_iff,
    (run calls).length_keys.symm⟩
  report since := ⟨(run calls).entries, rfl, (run calls).sorted,
    fun key q => ((run calls).get?_eq_some_iff key q).symm⟩
  report_sorted since es := report_of_listed (run calls) since
  in_turn s n hgiven := by
    refine sublist_of_ascending (run calls).sorted_keys
      ((s.nextKeys_sorted n).sublist hgiven) fun key hkey => ?_
    obtain ⟨before, p, since, hsplit, -⟩ :=
      contains_run_iff.1 (((run calls).mem_keys_iff key).1 hkey)
    exact mem_insertedKeys hsplit

/-- The first peer has left and the third one has a name; what has been said about the first since
does not count. -/
theorem tells_run_crossing :
    let calls : List Call := [.insert 1 (.ofAddress "10.0.0.1:4000"), .recordEviction 1,
      .insert 2 (.ofAddress "10.0.0.2:4000"), .remove 1, .setNickname 1 "gone",
      .insert 3 (.ofAddress "10.0.0.3:4000"), .recordEviction 3, .setNickname 3 "first",
      .recordEviction 1, .setNickname 3 "node-3", .recordEviction 3]
    let t := run calls
    let s := State.start .standard ⟨List.replicate 16 71, rfl⟩
    (t.nickname? 2 = some "10.0.0.2:4000" ∧ t.evictions? 2 = some 0) ∧
    (t.nickname? 3 = some "node-3 (10.0.0.3:4000)" ∧ t.evictions? 3 = some 2) ∧
    (t.contains 1 = false ∧ t.perform (.recordEviction 1) = (.counted none, t)) ∧
    t.keys = [2, 3] ∧ (s.nextKeys 3).1 = [1, 2, 3] ∧ t.keys.Sublist (insertedKeys calls) := by
  intro calls t s
  have keeps : ∀ {key : Nat} {since : List Call},
      since.all (fun c => c.inserted? ≠ some key ∧ c ≠ .remove key) = true →
        ∀ c ∈ since, c.Keeps key := by
    intro key since h c hc
    have hboth := of_decide_eq_true (List.all_eq_true.1 h c hc)
    exact ⟨fun p hp => hboth.1 (by rw [hp]; rfl), hboth.2⟩
  have h := tells_run calls
  exact ⟨h.connected 2 "10.0.0.2:4000" (calls.drop 3) ⟨⟨calls.take 2, rfl⟩, keeps rfl⟩,
    h.connected 3 "10.0.0.3:4000" (calls.drop 6) ⟨⟨calls.take 5, rfl⟩, keeps rfl⟩,
    ⟨rfl, (h.absent 1 rfl).2.2⟩, rfl, rfl,
    h.in_turn s 3 (by change [1, 2, 3].Sublist [1, 2, 3]; exact .refl _)⟩

end PeerTable

end EvictionBus.Relay

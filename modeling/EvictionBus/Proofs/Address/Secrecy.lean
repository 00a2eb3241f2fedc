import EvictionBus.Proofs.Address.Grammar
import EvictionBus.Transport.Error

/-!
# What the texts about an address tell of its password

An address is shown with three stars for its password, but the error about a text that is no address
quotes the text.  The password is told as far as it stands in the quote: if what follows the
credentials has no colon, the port is looked for in the password; if it has a port and no host, the
whole text is quoted.
-/

namespace EvictionBus.Text

/-- The text without the blanks at its end. -/
def trimEnd (s : List Char) : List Char :=
  (s.reverse.dropWhile isBlank).reverse

theorem trimEnd_append_cons {c : Char} (hc : isBlank c = false) (a b : List Char) :
    trimEnd (a ++ c :: b) = a ++ c :: trimEnd b := by
  have hreverse : (a ++ c :: b).reverse = b.reverse ++ c :: a.reverse := by
    rw [List.reverse_append, List.reverse_cons, List.append_assoc, List.singleton_append]
  rw [trimEnd, trimEnd, hreverse, List.dropWhile_append]
  split
  next hempty =>
    rw [List.isEmpty_iff] at hempty
    rw [List.dropWhile_cons, hc, if_neg Bool.false_ne_true, hempty, List.reverse_cons,
      List.reverse_reverse, List.reverse_nil]
  next =>
    rw [List.reverse_append, List.reverse_cons, List.reverse_reverse, List.append_assoc,
      List.singleton_append]

/-- Each end is trimmed on its own side of a character that is no blank. -/
theorem trim_append_cons {c : Char} (hc : isBlank c = false) (a b : List Char) :
    trim (a ++ c :: b) = a.dropWhile isBlank ++ c :: trimEnd b := by
  have hfront : (a ++ c :: b).dropWhile isBlank = a.dropWhile isBlank ++ c :: b := by
    rw [List.dropWhile_append]
    split
    next hempty =>
      rw [List.isEmpty_iff] at hempty
      rw [List.dropWhile_cons, hc, if_neg Bool.false_ne_true, hempty, List.nil_append]
    next => rfl
  rw [← trimEnd_append_cons hc, ← hfront]
  rfl

end EvictionBus.Text

namespace EvictionBus.Address

/-- What is printed about a text: the address in it, or the errors of the address and of the
configuration that it stands in. -/
def printed (s : String) : Except (String × String) String :=
  match parse s with
  | .ok a => .ok a.text
  | .error e => .error (e.message, (TransportError.ofAddress e).message)

/-- The text of an address with credentials. -/
def withLogin (user password rest : String) : String :=
  user ++ ":" ++ password ++ "@" ++ rest

/-- What follows the last colon, or everything if there is none. -/
def afterColons (s : List Char) : List Char :=
  match Text.splitLast? ':' s with
  | some (_, after) => after
  | none => s

/-- The part of the password that is quoted, if `rest` follows the credentials. -/
def revealed (rest password : List Char) : List Char :=
  match Text.splitLast? ':' (Text.trimEnd rest) with
  | none => afterColons password
  | some (host, port) => if (port? port).isSome ∧ isHost host = false then password else []

variable {user password rest host port : List Char} {s t : String}

theorem revealed_of_no_colon (h : Text.splitLast? ':' (Text.trimEnd rest) = none)
    (password : List Char) : revealed rest password = afterColons password := by
  simp only [revealed, h]

theorem revealed_of_port (h : Text.splitLast? ':' (Text.trimEnd rest) = some (host, port))
    (password : List Char) : revealed rest password =
      if (port? port).isSome ∧ isHost host = false then password else [] := by
  simp only [revealed, h]

/-! ## Quotes -/

theorem quote_inj (before after : String) {x y : String} :
    before ++ x ++ after = before ++ y ++ after ↔ x = y := by
  constructor
  · intro h
    have hlist := congrArg String.toList h
    rw [String.toList_append, String.toList_append, String.toList_append, String.toList_append,
      List.append_left_inj, List.append_right_inj] at hlist
    exact String.toList_injective hlist
  · rintro rfl
    rfl

theorem message_invalidPort_inj {x y : String} :
    (AddressError.invalidPort x).message = (AddressError.invalidPort y).message ↔ x = y :=
  quote_inj "invalid port '" "'"

theorem message_missingHost_inj {x y : String} :
    (AddressError.missingHost x).message = (AddressError.missingHost y).message ↔ x = y :=
  quote_inj "address '" "' has no host"

/-- The error of the configuration quotes that of the address. -/
theorem printed_eq_printed_iff {e e' : AddressError} (hs : parse s = .error e)
    (ht : parse t = .error e') : printed s = printed t ↔ e.message = e'.message := by
  unfold printed
  rw [hs, ht]
  constructor
  · intro h
    exact (Prod.mk.inj (Except.error.inj h)).1
  · intro h
    have hconfiguration : (TransportError.ofAddress e).message =
        (TransportError.ofAddress e').message :=
      congrArg (fun m => (TransportError.configuration m).message) h
    simp only [h, hconfiguration]

/-! ## Texts with credentials -/

/-- The port is looked for behind the last colon of the password, and an at sign stands in it. -/
theorem parseTrimmed_of_no_colon_behind (hrest : ':' ∉ rest) :
    parseTrimmed (user ++ ':' :: (password ++ '@' :: rest)) =
      .error (.invalidPort (String.ofList (afterColons password ++ '@' :: rest))) := by
  have hport : ∀ before n, ¬ WritesPort (before ++ '@' :: rest) n :=
    fun before n h => h.not_mem (by decide) (by decide)
      (List.mem_append_right before List.mem_cons_self)
  have hcolon : ∀ before, ':' ∉ before → ':' ∉ before ++ '@' :: rest := by
    intro before hbefore
    rw [List.mem_append, List.mem_cons, not_or, not_or]
    exact ⟨hbefore, by decide, hrest⟩
  unfold afterColons
  cases hsplit : Text.splitLast? ':' password with
  | none =>
    have hpassword := (Text.splitLast?_eq_none_iff ':' password).1 hsplit
    exact parseTrimmed_of_no_port rfl (hcolon password hpassword) (hport password)
  | some parts =>
    obtain ⟨before, after⟩ := parts
    obtain ⟨rfl, hafter⟩ := (Text.splitLast?_eq_some_iff ':' _ before after).1 hsplit
    have hcut : user ++ ':' :: (before ++ ':' :: after ++ '@' :: rest) =
        (user ++ ':' :: before) ++ ':' :: (after ++ '@' :: rest) := by
      simp only [List.append_assoc, List.cons_append]
    exact parseTrimmed_of_no_port hcut (hcolon after hafter) (hport after)

theorem parseTrimmed_withLogin (huser : ':' ∉ user) (hhost : '@' ∉ host) {n : Nat}
    (hport : WritesPort port n) :
    parseTrimmed (user ++ ':' :: (password ++ '@' :: (host ++ ':' :: port))) =
      if isHost host then
        .ok ⟨some (String.ofList user), some (String.ofList password), String.ofList host, n⟩
      else .error (.missingHost
        (String.ofList (user ++ ':' :: (password ++ '@' :: (host ++ ':' :: port))))) := by
  let p : Parts := ⟨some (user, some password), host, port⟩
  have hp : p.Separated n := by
    refine ⟨?_, hhost, hport⟩
    rintro _ ⟨⟩
    exact huser
  have htext : p.text = user ++ ':' :: (password ++ '@' :: (host ++ ':' :: port)) := by
    simp only [p, Parts.text, Parts.front, Parts.loginText, List.append_assoc, List.cons_append]
  rw [← htext]
  exact hp.parseTrimmed_text

theorem parse_withLogin (user password rest : String) :
    parse (withLogin user password rest) = parseTrimmed (user.toList.dropWhile Text.isBlank ++
      ':' :: (password.toList ++ '@' :: Text.trimEnd rest.toList)) := by
  have hlist : (withLogin user password rest).toList =
      user.toList ++ ':' :: (password.toList ++ '@' :: rest.toList) := by
    simp [withLogin]
  rw [parse, hlist, Text.trim_append_cons (by decide), Text.trimEnd_append_cons (by decide)]

theorem not_mem_trimEnd {c : Char} (h : c ∉ rest) : c ∉ Text.trimEnd rest := by
  intro hmem
  rw [Text.trimEnd, List.mem_reverse] at hmem
  exact h (List.mem_reverse.1 ((List.dropWhile_sublist _).subset hmem))

/-- What is printed about an address with credentials depends on the part of its password that is
quoted, and on nothing else of it. -/
theorem printed_eq_iff_revealed_eq {user rest : String} (huser : ':' ∉ user.toList)
    (hrest : '@' ∉ rest.toList) (p q : String) :
    printed (withLogin user p rest) = printed (withLogin user q rest) ↔
      revealed rest.toList p.toList = revealed rest.toList q.toList := by
  have huser' : ':' ∉ user.toList.dropWhile Text.isBlank :=
    fun hmem => huser ((List.dropWhile_sublist _).subset hmem)
  have hrest' := not_mem_trimEnd hrest
  have hp := parse_withLogin user p rest
  have hq := parse_withLogin user q rest
  cases hsplit : Text.splitLast? ':' (Text.trimEnd rest.toList) with
  | none =>
    have hcolon := (Text.splitLast?_eq_none_iff ':' _).1 hsplit
    rw [revealed_of_no_colon hsplit, revealed_of_no_colon hsplit]
    rw [parseTrimmed_of_no_colon_behind hcolon] at hp hq
    rw [printed_eq_printed_iff hp hq]
    rw [message_invalidPort_inj, String.ofList_inj, List.append_left_inj]
  | some parts =>
    obtain ⟨host, port⟩ := parts
    obtain ⟨heq, hcolon⟩ := (Text.splitLast?_eq_some_iff ':' _ host port).1 hsplit
    rw [heq] at hp hq hrest'
    have hhost : '@' ∉ host := fun hmem => hrest' (List.mem_append_left _ hmem)
    rw [revealed_of_port hsplit, revealed_of_port hsplit]
    cases hport : port? port with
    | none =>
      -- Only the port is quoted.
      have hnone : ∀ n, ¬ WritesPort port n := fun n hn => by
        rw [port?_eq_some_iff.2 hn] at hport
        cases hport
      have hquote : ∀ password, parseTrimmed (user.toList.dropWhile Text.isBlank ++
          ':' :: (password ++ '@' :: (host ++ ':' :: port))) =
            .error (.invalidPort (String.ofList port)) := by
        intro password
        have hcut : user.toList.dropWhile Text.isBlank ++
            ':' :: (password ++ '@' :: (host ++ ':' :: port)) =
              (user.toList.dropWhile Text.isBlank ++ ':' :: (password ++ '@' :: host)) ++
                ':' :: port := by
          simp only [List.append_assoc, List.cons_append]
        exact parseTrimmed_of_no_port hcut hcolon hnone
      rw [hquote] at hp hq
      exact iff_of_true ((printed_eq_printed_iff hp hq).2 rfl) rfl
    | some n =>
      rw [parseTrimmed_withLogin huser' hhost (port?_eq_some_iff.1 hport)] at hp hq
      cases hvalid : isHost host with
      | true =>
        rw [hvalid, if_pos rfl] at hp hq
        refine iff_of_true ?_ rfl
        unfold printed
        rw [hp, hq]
        rfl
      | false =>
        rw [hvalid, if_neg Bool.false_ne_true] at hp hq
        rw [printed_eq_printed_iff hp hq]
        rw [message_missingHost_inj, String.ofList_inj, List.append_right_inj, List.cons_inj_right,
          List.append_left_inj]
        exact Iff.rfl

/-- With a port and a host nothing is told; without a port, what follows the last colon. -/
theorem printed_eq_iff_revealed_eq_local :
    printed "u:a:b@localhost:80 " = printed "u:@localhost:80 " ∧
    printed "u:a:b@localhost" = printed "u:b@localhost" ∧
    printed "u:a:b@localhost" ≠ printed "u:a@localhost" ∧
    printed "u:a:b@:80" ≠ printed "u:b@:80" := by
  have huser : ':' ∉ "u".toList := by decide
  have hport : '@' ∉ "localhost:80 ".toList := by decide
  have hname : '@' ∉ "localhost".toList := by decide
  refine ⟨?_, ?_, ?_, ?_⟩
  · exact (printed_eq_iff_revealed_eq huser hport "a:b" "").2 (by decide)
  · exact (printed_eq_iff_revealed_eq huser hname "a:b" "b").2 (by decide)
  · exact fun h => absurd ((printed_eq_iff_revealed_eq huser hname "a:b" "a").1 h) (by decide)
  · have hnoHost : '@' ∉ ":80".toList := by decide
    exact fun h => absurd ((printed_eq_iff_revealed_eq huser hnoHost "a:b" "b").1 h) (by decide)

/-- A text without a port is quoted with the end of its password. -/
theorem exists_password_printed :
    ¬ ∀ user p q rest : String, ':' ∉ user.toList → '@' ∉ user.toList → '@' ∉ rest.toList →
      printed (withLogin user p rest) = printed (withLogin user q rest) := by
  intro hall
  have h := hall "u" "hunter2" "guest" "localhost" (by decide) (by decide) (by decide)
  have hp : parse (withLogin "u" "hunter2" "localhost") =
      .error (.invalidPort "hunter2@localhost") := by rfl
  have hq : parse (withLogin "u" "guest" "localhost") =
      .error (.invalidPort "guest@localhost") := by rfl
  rw [printed_eq_printed_iff hp hq, message_invalidPort_inj] at h
  exact absurd h (by decide)

end EvictionBus.Address

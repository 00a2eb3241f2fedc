import EvictionBus.Address

/-!
# How addresses are written

An address is written `[user[:password]@]host:port`, between blanks that do not matter.  Colons and
at signs may also stand within the parts, but a text has its parts in one way only: the last colon,
the last at sign before it and the first colon of the credentials are the ones that separate.
-/

namespace EvictionBus.Address

/-! ## Ports -/

/-- The text of a port: digits, after a plus sign if there is one, for a number from 1 to 65535. -/
def WritesPort (text : List Char) (n : Nat) : Prop :=
  ∃ digits, (text = digits ∨ text = '+' :: digits) ∧
    (digits ≠ [] ∧ digits.all Text.isDigit) ∧ Text.ofDigits digits = n ∧ 1 ≤ n ∧ n ≤ 65535

theorem port?_eq_some_iff {text : List Char} {n : Nat} :
    port? text = some n ↔ WritesPort text n := by
  unfold port? WritesPort
  rw [Option.filter_eq_some_iff, decide_eq_true_eq, Text.natBelow?_eq_some_iff]
  constructor
  · rintro ⟨⟨digits, htext, hdigits, hn, hlt⟩, hne⟩
    exact ⟨digits, htext, hdigits, hn, Nat.pos_of_ne_zero hne, by omega⟩
  · rintro ⟨digits, htext, hdigits, hn, hpos, hle⟩
    exact ⟨⟨digits, htext, hdigits, hn, by omega⟩, by omega⟩

theorem WritesPort.not_mem {text : List Char} {n : Nat} (h : WritesPort text n) {c : Char}
    (hdigit : Text.isDigit c = false) (hplus : c ≠ '+') : c ∉ text := by
  obtain ⟨digits, htext, ⟨-, hall⟩, -⟩ := h
  have hdigits : c ∉ digits := by
    intro hmem
    rw [List.all_eq_true.1 hall c hmem] at hdigit
    cases hdigit
  rcases htext with rfl | rfl
  · exact hdigits
  · rw [List.mem_cons, not_or]
    exact ⟨hplus, hdigits⟩

theorem WritesPort.no_colon {text : List Char} {n : Nat} (h : WritesPort text n) : ':' ∉ text :=
  h.not_mem (by decide) (by decide)

/-! ## Parts -/

/-- The parts of a written address, with the port as it is written. -/
@[ext] structure Parts where
  /-- The user, and the password if there is one. -/
  login : Option (List Char × Option (List Char))
  host : List Char
  port : List Char

namespace Parts

def loginText : List Char × Option (List Char) → List Char
  | (user, none) => user
  | (user, some password) => user ++ ':' :: password

/-- What comes before the port. -/
def front (p : Parts) : List Char :=
  match p.login with
  | none => p.host
  | some login => loginText login ++ '@' :: p.host

/-- The text made of the parts: `[user[:password]@]host:port`. -/
def text (p : Parts) : List Char :=
  p.front ++ ':' :: p.port

/-- The address that the parts name, if `n` is the number of its port. -/
def address (p : Parts) (n : Nat) : Address :=
  ⟨p.login.map fun login => String.ofList login.1,
    p.login.bind fun login => login.2.map String.ofList, String.ofList p.host, n⟩

/-- The separators of the text separate these parts. -/
structure Separated (p : Parts) (n : Nat) : Prop where
  user : ∀ login, p.login = some login → ':' ∉ login.1
  host : '@' ∉ p.host
  port : WritesPort p.port n

/-- The parts are those of an address, whose port is `n`. -/
structure WellFormed (p : Parts) (n : Nat) : Prop extends Separated p n where
  host_ne_nil : p.host ≠ []
  host_head : p.host.head? ≠ some '/'

end Parts

theorem isHost_iff {host : List Char} : isHost host = true ↔ host ≠ [] ∧ host.head? ≠ some '/' := by
  cases host <;> simp [isHost]

theorem credentials_loginText {login : List Char × Option (List Char)} (h : ':' ∉ login.1) :
    credentials (Parts.loginText login) = login := by
  obtain ⟨user, _ | password⟩ := login
  · have hsplit := (Text.splitFirst?_eq_none_iff ':' user).2 h
    simp only [credentials, Parts.loginText, hsplit]
  · have hsplit := (Text.splitFirst?_eq_some_iff ':' (user ++ ':' :: password) user password).2
      ⟨rfl, h⟩
    simp only [credentials, Parts.loginText, hsplit]

theorem loginText_credentials (s : List Char) :
    Parts.loginText (credentials s) = s ∧ ':' ∉ (credentials s).1 := by
  unfold credentials
  split
  next user password hsplit =>
    obtain ⟨hs, huser⟩ := (Text.splitFirst?_eq_some_iff ':' s user password).1 hsplit
    exact ⟨hs.symm, huser⟩
  next hsplit => exact ⟨rfl, (Text.splitFirst?_eq_none_iff ':' s).1 hsplit⟩

namespace Parts

variable {p q : Parts} {n m : Nat} {t : List Char}

theorem Separated.splitCredentials (h : p.Separated n) :
    splitCredentials p.front = (p.login.map Prod.fst, p.login.bind Prod.snd, p.host) := by
  obtain ⟨_ | login, host, port⟩ := p
  · have hsplit := (Text.splitLast?_eq_none_iff '@' host).2 h.host
    simp only [Address.splitCredentials, front, hsplit]
    rfl
  · -- The host holds no at sign, so the last one is that of the credentials.
    have hsplit := (Text.splitLast?_eq_some_iff '@' (loginText login ++ '@' :: host)
      (loginText login) host).2 ⟨rfl, h.host⟩
    have hlogin := credentials_loginText (h.user login rfl)
    simp only [Address.splitCredentials, front, hsplit, hlogin]
    rfl

theorem Separated.splitLast (h : p.Separated n) :
    Text.splitLast? ':' p.text = some (p.front, p.port) :=
  (Text.splitLast?_eq_some_iff ':' p.text p.front p.port).2 ⟨rfl, h.port.no_colon⟩

theorem Separated.parseTrimmed_text (h : p.Separated n) :
    parseTrimmed p.text =
      if isHost p.host then .ok (p.address n) else .error (.missingHost (String.ofList p.text)) := by
  have hne : p.text ≠ [] := by simp [text]
  unfold parseTrimmed
  rw [if_neg hne]
  simp only [h.splitLast, port?_eq_some_iff.2 h.port, h.splitCredentials, address,
    Option.map_map, Option.map_bind, Function.comp_def]

theorem login_ext {a b : Option (List Char × Option (List Char))}
    (huser : a.map Prod.fst = b.map Prod.fst) (hpassword : a.bind Prod.snd = b.bind Prod.snd) :
    a = b := by
  cases a with
  | none =>
    cases b with
    | none => rfl
    | some _ => cases huser
  | some a =>
    cases b with
    | none => cases huser
    | some b => exact congrArg some (Prod.ext (Option.some.inj huser) hpassword)

/-- A text has its parts in one way only. -/
theorem Separated.unique (hp : p.Separated n) (hq : q.Separated m) (h : p.text = q.text) :
    p = q ∧ n = m := by
  -- Each cut is a function of the text, and gives the parts back.
  have hsplit := hp.splitLast
  rw [h, hq.splitLast, Option.some.injEq, Prod.mk.injEq] at hsplit
  obtain ⟨hfront, hport⟩ := hsplit
  have hcred := hp.splitCredentials
  rw [← hfront, hq.splitCredentials, Prod.mk.injEq, Prod.mk.injEq] at hcred
  obtain ⟨huser, hpassword, hhost⟩ := hcred
  have hnumber := port?_eq_some_iff.2 hp.port
  rw [← hport, port?_eq_some_iff.2 hq.port, Option.some.injEq] at hnumber
  exact ⟨Parts.ext (login_ext huser.symm hpassword.symm) hhost.symm hport.symm, hnumber.symm⟩

theorem exists_separated {before after : List Char} (h : t = before ++ ':' :: after)
    (hport : WritesPort after n) : ∃ p : Parts, p.Separated n ∧ p.text = t := by
  cases hsplit : Text.splitLast? '@' before with
  | none =>
    refine ⟨⟨none, before, after⟩, ⟨?_, ?_, hport⟩, h.symm⟩
    · rintro _ ⟨⟩
    · exact (Text.splitLast?_eq_none_iff '@' before).1 hsplit
  | some found =>
    obtain ⟨login, host⟩ := found
    obtain ⟨hbefore, hhost⟩ := (Text.splitLast?_eq_some_iff '@' before login host).1 hsplit
    obtain ⟨hlogin, huser⟩ := loginText_credentials login
    refine ⟨⟨some (credentials login), host, after⟩, ⟨?_, hhost, hport⟩, ?_⟩
    · rintro _ ⟨⟩
      exact huser
    · rw [h, hbefore, text, front]
      simp only [hlogin]

end Parts

/-! ## What is read -/

/-- What is read in a text without blanks at its ends. -/
structure Reads (t : List Char) (result : Except AddressError Address) : Prop where
  accepted : ∀ a, result = .ok a ↔
    ∃ (p : Parts) (n : Nat), p.WellFormed n ∧ p.text = t ∧ p.address n = a
  empty : result = .error .empty ↔ t = []
  missingPort : ∀ x, result = .error (.missingPort x) ↔
    t ≠ [] ∧ ':' ∉ t ∧ String.ofList t = x
  invalidPort : ∀ x, result = .error (.invalidPort x) ↔
    ∃ before after, t = before ++ ':' :: after ∧ ':' ∉ after ∧ (∀ n, ¬ WritesPort after n) ∧
      String.ofList after = x
  /-- What is left: there is a port, and yet the text is no address. -/
  missingHost : ∀ x, result = .error (.missingHost x) ↔
    (∃ before after n, t = before ++ ':' :: after ∧ WritesPort after n) ∧
      (∀ (p : Parts) (n : Nat), p.WellFormed n → p.text ≠ t) ∧ String.ofList t = x

variable {t : List Char}

theorem parseTrimmed_nil : parseTrimmed [] = .error .empty := rfl

theorem parseTrimmed_of_no_colon (hne : t ≠ []) (h : ':' ∉ t) :
    parseTrimmed t = .error (.missingPort (String.ofList t)) := by
  unfold parseTrimmed
  rw [if_neg hne]
  simp only [(Text.splitLast?_eq_none_iff ':' t).2 h]

theorem parseTrimmed_of_no_port {before after : List Char} (h : t = before ++ ':' :: after)
    (hcolon : ':' ∉ after) (hport : ∀ n, ¬ WritesPort after n) :
    parseTrimmed t = .error (.invalidPort (String.ofList after)) := by
  have hne : t ≠ [] := by simp [h]
  have hnone : port? after = none :=
    Option.eq_none_iff_forall_ne_some.2 fun n hn => hport n (port?_eq_some_iff.1 hn)
  unfold parseTrimmed
  rw [if_neg hne]
  simp only [(Text.splitLast?_eq_some_iff ':' t before after).2 ⟨h, hcolon⟩, hnone]

theorem parseTrimmed_of_wellFormed {p : Parts} {n : Nat} (h : p.WellFormed n) :
    parseTrimmed p.text = .ok (p.address n) := by
  rw [h.toSeparated.parseTrimmed_text, if_pos (isHost_iff.2 ⟨h.host_ne_nil, h.host_head⟩)]

/-- The ways in which a text is an address or none, in the order in which they are looked for. -/
inductive Verdict (t : List Char) : Except AddressError Address → Prop where
  | empty : t = [] → Verdict t (.error .empty)
  | missingPort : t ≠ [] → ':' ∉ t → Verdict t (.error (.missingPort (String.ofList t)))
  | invalidPort {before after : List Char} : t = before ++ ':' :: after → ':' ∉ after →
      (∀ n, ¬ WritesPort after n) → Verdict t (.error (.invalidPort (String.ofList after)))
  | missingHost {p : Parts} {n : Nat} : p.Separated n → p.text = t → isHost p.host = false →
      Verdict t (.error (.missingHost (String.ofList t)))
  | accepted {p : Parts} {n : Nat} : p.WellFormed n → p.text = t → Verdict t (.ok (p.address n))

theorem Verdict.parseTrimmed_eq {result : Except AddressError Address} (h : Verdict t result) :
    parseTrimmed t = result := by
  cases h with
  | empty ht => rw [ht, parseTrimmed_nil]
  | missingPort hne hcolon => exact parseTrimmed_of_no_colon hne hcolon
  | invalidPort ht hcolon hport => exact parseTrimmed_of_no_port ht hcolon hport
  | missingHost hp htext hhost =>
    rw [← htext, hp.parseTrimmed_text, hhost]
    rfl
  | accepted hp htext => rw [← htext, parseTrimmed_of_wellFormed hp]

theorem exists_verdict (t : List Char) : ∃ result, Verdict t result := by
  by_cases hne : t = []
  · exact ⟨_, .empty hne⟩
  cases hsplit : Text.splitLast? ':' t with
  | none => exact ⟨_, .missingPort hne ((Text.splitLast?_eq_none_iff ':' t).1 hsplit)⟩
  | some found =>
    obtain ⟨before, after⟩ := found
    obtain ⟨ht, hcolon⟩ := (Text.splitLast?_eq_some_iff ':' t before after).1 hsplit
    by_cases hport : ∃ n, WritesPort after n
    · obtain ⟨n, hn⟩ := hport
      obtain ⟨p, hp, htext⟩ := Parts.exists_separated ht hn
      cases hhost : isHost p.host with
      | false => exact ⟨_, .missingHost hp htext hhost⟩
      | true =>
        obtain ⟨hnil, hhead⟩ := isHost_iff.1 hhost
        exact ⟨_, .accepted ⟨hp, hnil, hhead⟩ htext⟩
    · exact ⟨_, .invalidPort ht hcolon (not_exists.1 hport)⟩

theorem parseTrimmed_eq_iff {result : Except AddressError Address} :
    parseTrimmed t = result ↔ Verdict t result := by
  constructor
  · rintro rfl
    obtain ⟨result, h⟩ := exists_verdict t
    rwa [h.parseTrimmed_eq]
  · exact Verdict.parseTrimmed_eq

theorem reads_parseTrimmed (t : List Char) : Reads t (parseTrimmed t) := by
  constructor
  case accepted =>
    intro a
    rw [parseTrimmed_eq_iff]
    constructor
    · rintro ⟨⟩
      next p n hp htext => exact ⟨p, n, hp, htext, rfl⟩
    · rintro ⟨p, n, hp, htext, rfl⟩
      exact .accepted hp htext
  case empty =>
    rw [parseTrimmed_eq_iff]
    constructor
    · rintro ⟨⟩
      next ht => exact ht
    · exact .empty
  case missingPort =>
    intro x
    rw [parseTrimmed_eq_iff]
    constructor
    · rintro ⟨⟩
      next hne hcolon => exact ⟨hne, hcolon, rfl⟩
    · rintro ⟨hne, hcolon, rfl⟩
      exact .missingPort hne hcolon
  case invalidPort =>
    intro x
    rw [parseTrimmed_eq_iff]
    constructor
    · rintro ⟨⟩
      next before after ht hcolon hport => exact ⟨before, after, ht, hcolon, hport, rfl⟩
    · rintro ⟨before, after, ht, hcolon, hport, rfl⟩
      exact .invalidPort ht hcolon hport
  case missingHost =>
    intro x
    rw [parseTrimmed_eq_iff]
    constructor
    · intro h
      have herror := h.parseTrimmed_eq
      cases h with
      | missingHost hp htext hhost =>
        refine ⟨⟨_, _, _, htext.symm, hp.port⟩, fun q m hq hqtext => ?_, rfl⟩
        -- Well-formed parts would have been read.
        rw [← hqtext, parseTrimmed_of_wellFormed hq] at herror
        cases herror
    · rintro ⟨⟨before, after, n, ht, hport⟩, hnone, rfl⟩
      obtain ⟨p, hp, htext⟩ := Parts.exists_separated ht hport
      refine .missingHost hp htext (Bool.eq_false_iff.2 fun hhost => ?_)
      obtain ⟨hnil, hhead⟩ := isHost_iff.1 hhost
      exact hnone p n ⟨hp, hnil, hhead⟩ htext

/-! ## Host names -/

theorem hostName_spec {a : Address} (h : isHost a.host.toList = true) :
    a.hostName ≠ "" ∧ '/' ∉ a.hostName.toList := by
  obtain ⟨hne, hhead⟩ := isHost_iff.1 h
  unfold hostName
  split
  next name path hsplit =>
    obtain ⟨hhost, hname⟩ := (Text.splitFirst?_eq_some_iff '/' _ name path).1 hsplit
    rw [String.toList_ofList]
    refine ⟨?_, hname⟩
    -- A host that has no name before the slash starts with the slash.
    intro hempty
    rw [String.ofList_eq_empty_iff] at hempty
    rw [hhost, hempty] at hhead
    exact hhead rfl
  next hsplit =>
    refine ⟨?_, (Text.splitFirst?_eq_none_iff '/' _).1 hsplit⟩
    intro hempty
    rw [hempty] at hne
    exact hne rfl

theorem virtualHost_ne_empty (a : Address) : a.virtualHost ≠ some "" := by
  unfold virtualHost
  split
  next path _ =>
    split
    next => exact fun h => by cases h
    next hne =>
      intro h
      rw [Option.some.injEq, String.ofList_eq_empty_iff] at h
      exact hne h
  next => exact fun h => by cases h

/-- A text is read as an address exactly if it is one between blanks; then its parts are those that
it is made of, which no other parts make. -/
theorem parse_grammar (s : String) :
    Text.Trims s.toList (Text.trim s.toList) ∧ Reads (Text.trim s.toList) (parse s) ∧
    (∀ (p q : Parts) (n m : Nat), p.WellFormed n → q.WellFormed m → p.text = q.text →
      p = q ∧ n = m) ∧
    ∀ a, parse s = .ok a →
      a.hostName ≠ "" ∧ '/' ∉ a.hostName.toList ∧ a.virtualHost ≠ some "" := by
  refine ⟨Text.trims_trim s.toList, reads_parseTrimmed _, ?_, ?_⟩
  · exact fun p q n m hp hq h => hp.toSeparated.unique hq.toSeparated h
  · intro a ha
    obtain ⟨p, n, hp, -, rfl⟩ := ((reads_parseTrimmed _).accepted a).1 ha
    have hhost : isHost (p.address n).host.toList = true := by
      rw [Parts.address, String.toList_ofList]
      exact isHost_iff.2 ⟨hp.host_ne_nil, hp.host_head⟩
    obtain ⟨hname, hslash⟩ := hostName_spec hhost
    exact ⟨hname, hslash, virtualHost_ne_empty _⟩

/-- Parts in which all the separators occur once more. -/
def crowded : Parts :=
  ⟨some ("a@b".toList, some "p:@w".toList), "::1/v".toList, "+080".toList⟩

theorem wellFormed_crowded : crowded.WellFormed 80 where
  user := by
    rintro _ ⟨⟩
    decide
  host := by decide
  port := ⟨"080".toList, .inr rfl, by decide, by decide, by decide, by decide⟩
  host_ne_nil := by decide
  host_head := by decide

theorem parse_grammar_crowded :
    parse "\u3000a@b:p:@w@::1/v:+080 " = .ok ⟨some "a@b", some "p:@w", "::1/v", 80⟩ ∧
    (∀ (p : Parts) (n : Nat), p.WellFormed n → p.text = "a@b:p:@w@::1/v:+080".toList →
      p = crowded ∧ n = 80) ∧
    hostName ⟨some "a@b", some "p:@w", "::1/v", 80⟩ ≠ "" := by
  obtain ⟨-, hreads, hunique, hhost⟩ := parse_grammar "\u3000a@b:p:@w@::1/v:+080 "
  have hparse : parse "\u3000a@b:p:@w@::1/v:+080 " = .ok (crowded.address 80) :=
    (hreads.accepted _).2 ⟨crowded, 80, wellFormed_crowded, by rfl, rfl⟩
  refine ⟨hparse, fun p n hp htext => ?_, (hhost _ hparse).1⟩
  exact hunique p crowded n 80 hp wellFormed_crowded htext

end EvictionBus.Address

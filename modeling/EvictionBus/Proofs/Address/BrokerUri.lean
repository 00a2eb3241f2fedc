import EvictionBus.Address.BrokerUri
import EvictionBus.Proofs.Address.Grammar
import EvictionBus.Proofs.Text.Percent

/-!
# What a broker URI says

A client of a broker takes the URI apart: the credentials stand before the last at sign of the
authority, which ends at the first slash, and credentials and virtual host may be percent-encoded.
The URI of an address escapes the slashes of its virtual host and nothing else.  So the endpoint is
read back from it unless the credentials hold a slash, or some part an escape sequence of its own.
-/

namespace EvictionBus.Address

/-- Where a broker is and as whom it is used. -/
structure BrokerAccess where
  user : String
  password : String
  host : String
  port : Nat
  virtualHost : String
  deriving DecidableEq

/-- The access that an address configures. -/
def access (a : Address) : BrokerAccess :=
  ⟨a.user.getD guest, a.password.getD guest, a.hostName, a.port, a.virtualHost.getD "/"⟩

/-! ## Reading a URI -/

def uriScheme : List Char := "amqp://".toList

/-- The credentials in an authority, and the host with its port. -/
def splitAuthority (authority : List Char) : (List Char × Option (List Char)) × List Char :=
  match Text.splitLast? '@' authority with
  | some (before, place) => (credentials before, place)
  | none => ((guest.toList, none), authority)

/-- The access that the authority and the path of a URI stand for. -/
def readAuthority (authority path : List Char) : Option BrokerAccess :=
  let (login, place) := splitAuthority authority
  match Text.splitLast? ':' place with
  | none => none
  | some (host, port) => do
    return ⟨← Text.unescape? login.1, ← Text.unescape? (login.2.getD guest.toList),
      String.ofList host, ← Text.digits? port, ← Text.unescape? path⟩

def readBrokerUri (uri : String) : Option BrokerAccess := do
  let rest ← if uriScheme <+: uri.toList then some (uri.toList.drop uriScheme.length) else none
  let (authority, path) ← Text.splitFirst? '/' rest
  readAuthority authority path

/-- The characters of a text that is put together from pieces, which are variables here: literals
would be opened character by character. -/
theorem toList_pieces (s₁ s₂ s₃ s₄ s₅ s₆ s₇ s₈ s₉ s₁₀ : String) :
    (s₁ ++ s₂ ++ s₃ ++ s₄ ++ s₅ ++ s₆ ++ s₇ ++ s₈ ++ s₉ ++ s₁₀).toList =
      s₁.toList ++ ((s₂.toList ++ (s₃.toList ++ s₄.toList) ++
        (s₅.toList ++ (s₆.toList ++ (s₇.toList ++ s₈.toList)))) ++ (s₉.toList ++ s₁₀.toList)) := by
  simp only [String.toList_append, List.append_assoc]

/-- The parts of the URI between which the slash after the authority stands. -/
theorem toList_brokerUri (a : Address) : a.brokerUri.toList = uriScheme ++
    ((Parts.loginText (a.access.user.toList, some a.access.password.toList) ++
        '@' :: (a.hostName.toList ++ ':' :: Nat.toDigits 10 a.port)) ++
      '/' :: (escapeSlashes a.access.virtualHost).toList) := by
  have hport : (toString a.port).toList = Nat.toDigits 10 a.port := Nat.toList_repr
  rw [← hport]
  exact toList_pieces "amqp://" a.access.user ":" a.access.password "@" a.hostName ":"
    (toString a.port) "/" (escapeSlashes a.access.virtualHost)

variable {a : Address} {b : BrokerAccess} {s : String} {authority path : List Char}

theorem readBrokerUri_eq {rest : List Char} {uri : String} (h : uri.toList = uriScheme ++ rest) :
    readBrokerUri uri =
      (Text.splitFirst? '/' rest).bind fun parts => readAuthority parts.1 parts.2 := by
  have hscheme : uriScheme <+: uri.toList := by
    rw [h]
    exact List.prefix_append _ _
  unfold readBrokerUri
  rw [if_pos hscheme, h, List.drop_left]
  rfl

/-! ## Credentials without a slash -/

theorem readAuthority_eq_some_iff {user password name : List Char} (huser : ':' ∉ user)
    (hname : '@' ∉ name) {port : Nat} :
    readAuthority (Parts.loginText (user, some password) ++
        '@' :: (name ++ ':' :: Nat.toDigits 10 port)) path = some b ↔
      Text.unescape? user = some b.user ∧ Text.unescape? password = some b.password ∧
        String.ofList name = b.host ∧ port = b.port ∧ Text.unescape? path = some b.virtualHost := by
  have hdigit : ∀ c, Text.isDigit c = false → c ∉ Nat.toDigits 10 port := by
    intro c hc hmem
    rw [Text.isDigit_of_mem_toDigits hmem] at hc
    cases hc
  have hat : '@' ∉ name ++ ':' :: Nat.toDigits 10 port := by
    rw [List.mem_append, List.mem_cons, not_or, not_or]
    exact ⟨hname, by decide, hdigit '@' (by decide)⟩
  have hport : Text.digits? (Nat.toDigits 10 port) = some port := by
    rw [Text.digits?_eq_some_iff]
    refine ⟨⟨Nat.toDigits_ne_nil, ?_⟩, Text.ofDigits_toDigits port⟩
    exact List.all_eq_true.2 fun _ => Text.isDigit_of_mem_toDigits
  have hsplit : splitAuthority (Parts.loginText (user, some password) ++
      '@' :: (name ++ ':' :: Nat.toDigits 10 port)) =
        ((user, some password), name ++ ':' :: Nat.toDigits 10 port) := by
    unfold splitAuthority
    rw [(Text.splitLast?_eq_some_iff '@' _ _ _).2 ⟨rfl, hat⟩]
    have hlogin : credentials (Parts.loginText (user, some password)) = (user, some password) :=
      credentials_loginText huser
    simp only [hlogin]
  have hplace : Text.splitLast? ':' (name ++ ':' :: Nat.toDigits 10 port) =
      some (name, Nat.toDigits 10 port) :=
    (Text.splitLast?_eq_some_iff ':' _ _ _).2 ⟨rfl, hdigit ':' (by decide)⟩
  obtain ⟨u, p, h, n, v⟩ := b
  unfold readAuthority
  simp only [hsplit, hplace, hport, Option.getD_some, Option.bind_eq_bind, Option.bind_eq_some_iff,
    Option.pure_def, Option.some.injEq, BrokerAccess.mk.injEq]
  constructor
  · rintro ⟨u, hu, p, hp, n, rfl, v, hv, rfl, rfl, rfl, rfl, rfl⟩
    exact ⟨hu, hp, rfl, rfl, hv⟩
  · rintro ⟨hu, hp, rfl, rfl, hv⟩
    exact ⟨u, hu, p, hp, port, rfl, v, hv, rfl, rfl, rfl, rfl, rfl⟩

/-! ## Credentials with a slash -/

theorem exists_of_readAuthority (h : readAuthority authority path = some b) :
    Text.unescape? (splitAuthority authority).1.1 = some b.user ∧
      Text.unescape? ((splitAuthority authority).1.2.getD guest.toList) = some b.password := by
  unfold readAuthority at h
  obtain ⟨u, p, host, n, v⟩ := b
  simp only at h
  split at h
  · cases h
  · simp only [Option.bind_eq_bind, Option.bind_eq_some_iff, Option.pure_def, Option.some.injEq,
      BrokerAccess.mk.injEq] at h
    obtain ⟨u, hu, p, hp, n, -, v, -, rfl, rfl, -⟩ := h
    exact ⟨hu, hp⟩

theorem unescape?_guest : Text.unescape? guest.toList = some guest := by
  decide +kernel

/-- The password of the guest holds no slash, so the first one is in the user. -/
theorem exists_of_guest {user more : List Char}
    (h : Parts.loginText (user, some guest.toList) = authority ++ '/' :: more) :
    ∃ rest, user = authority ++ '/' :: rest := by
  rcases List.append_eq_append_iff.1 h with ⟨x, -, hx⟩ | ⟨x, huser, hx⟩
  · have hmem : '/' ∈ ':' :: guest.toList := by
      rw [hx]
      simp
    exact absurd hmem (by decide)
  · cases x with
    | nil => cases hx
    | cons c x =>
      obtain ⟨rfl, -⟩ := List.cons.inj hx
      exact ⟨x, huser⟩

/-- An authority that ends within the credentials does not tell them: either they are longer than
all of it, or a part of them is missing that the guest's does not replace. -/
theorem readAuthority_ne {more : List Char}
    (h : Parts.loginText (b.user.toList, some b.password.toList) = authority ++ '/' :: more) :
    readAuthority authority path ≠ some b := by
  intro hread
  obtain ⟨huser, hpassword⟩ := exists_of_readAuthority hread
  unfold splitAuthority at huser hpassword
  cases hsplit : Text.splitLast? '@' authority with
  | none =>
    simp only [hsplit, Option.getD_none, unescape?_guest, Option.some.injEq] at huser hpassword
    rw [← huser, ← hpassword] at h
    obtain ⟨rest, hrest⟩ := exists_of_guest h
    have hmem : '/' ∈ guest.toList := by
      rw [hrest]
      simp
    exact absurd hmem (by decide)
  | some parts =>
    obtain ⟨before, place⟩ := parts
    obtain ⟨rfl, -⟩ := (Text.splitLast?_eq_some_iff '@' _ _ _).1 hsplit
    obtain ⟨hlogin, -⟩ := loginText_credentials before
    simp only [hsplit] at huser hpassword
    have hslash := '/'.utf8Size_pos
    have huser_le := Text.unescape?_le huser
    cases hcredentials : credentials before with
    | mk user password =>
      rw [hcredentials] at hlogin hpassword huser_le
      cases password with
      | none =>
        simp only [Option.getD_none, unescape?_guest, Option.some.injEq] at hpassword
        rw [← hpassword] at h
        obtain ⟨rest, hrest⟩ := exists_of_guest h
        rw [hrest, ← hlogin] at huser_le
        simp only [Parts.loginText, Text.utf8Length_append, Text.utf8Length_cons] at huser_le
        omega
      | some password =>
        have hpassword_le := Text.unescape?_le hpassword
        have hlength := congrArg Text.utf8Length h
        rw [← hlogin] at hlength
        simp only [Parts.loginText, Text.utf8Length_append, Text.utf8Length_cons,
          Option.getD_some] at hlength huser_le hpassword_le
        omega

/-! ## Virtual hosts -/

def slashEscaped (c : Char) : List Char :=
  if c = '/' then ['%', '2', 'f'] else [c]

theorem toList_escapeSlashes (s : String) :
    (escapeSlashes s).toList = s.toList.flatMap slashEscaped :=
  String.toList_ofList

theorem slashEscaped_slash : slashEscaped '/' = ['%', '2', 'f'] := rfl

theorem slashEscaped_of_ne {c : Char} (h : c ≠ '/') : slashEscaped c = [c] :=
  if_neg h

/-- Escaped slashes neither make nor break an escape sequence that is there already: neither a slash
nor a percent sign is a digit. -/
theorem startsEscape_slashEscaped (s : List Char) :
    Text.startsEscape ('%' :: s.flatMap slashEscaped) = Text.startsEscape ('%' :: s) := by
  have hslash : (Text.valueIn? 16 '/').isSome = false := by decide
  have hpercent : (Text.valueIn? 16 '%').isSome = false := by decide
  -- The two characters after the percent sign decide.
  rcases s with _ | ⟨x, _ | ⟨y, s⟩⟩
  · rfl
  · by_cases hx : x = '/'
    · rw [hx]
      rfl
    · rw [List.flatMap_cons, slashEscaped_of_ne hx]
      rfl
  · rw [List.flatMap_cons, List.flatMap_cons]
    by_cases hx : x = '/'
    · rw [hx, slashEscaped_slash]
      simp only [List.cons_append, Text.startsEscape, hslash, hpercent, Bool.false_and]
    · rw [slashEscaped_of_ne hx]
      by_cases hy : y = '/'
      · rw [hy, slashEscaped_slash]
        simp only [List.cons_append, List.nil_append, Text.startsEscape, hslash, hpercent,
          Bool.and_false]
      · rw [slashEscaped_of_ne hy]
        rfl

theorem startsEscape_of_ne {c : Char} (h : c ≠ '%') (s : List Char) :
    Text.startsEscape (c :: s) = false := by
  unfold Text.startsEscape
  split
  next heq => exact absurd (List.cons.inj heq).1 h
  next => rfl

/-- Escaping the slashes of a text does not change what it means. -/
theorem unescaped_slashEscaped (s : List Char) :
    Text.unescaped (s.flatMap slashEscaped) = Text.unescaped s := by
  induction hn : s.length using Nat.strongRecOn generalizing s with
  | ind n ih =>
    cases s with
    | nil => rfl
    | cons c s =>
      have htail := ih s.length (by rw [← hn]; simp) s rfl
      by_cases hslash : c = '/'
      · rw [hslash, List.flatMap_cons, Text.unescaped_cons (startsEscape_of_ne (by decide) s),
          ← htail]
        rfl
      · have hcons : (c :: s).flatMap slashEscaped = c :: s.flatMap slashEscaped := by
          rw [List.flatMap_cons, slashEscaped_of_ne hslash, List.singleton_append]
        rw [hcons]
        cases hstart : Text.startsEscape (c :: s) with
        | true =>
          obtain ⟨x, y, rest, b, heq, ⟨hx, hy⟩, hbytes⟩ := Text.exists_unescaped hstart
          obtain ⟨rfl, rfl⟩ := List.cons.inj heq
          -- Neither digit is a slash, so the sequence stays as it is.
          have hdigit : ∀ d, (Text.valueIn? 16 d).isSome → slashEscaped d = [d] := by
            intro d hd
            refine slashEscaped_of_ne fun hslash => ?_
            rw [hslash] at hd
            exact absurd hd (by decide)
          have hrest := ih rest.length (by rw [← hn]; simp; omega) rest rfl
          rw [List.flatMap_cons, List.flatMap_cons, hdigit x hx, hdigit y hy]
          exact (hbytes _).trans ((congrArg (b :: ·) hrest).trans (hbytes rest).symm)
        | false =>
          have hstart' : Text.startsEscape (c :: s.flatMap slashEscaped) = false := by
            by_cases hc : c = '%'
            · rw [hc, startsEscape_slashEscaped, ← hc, hstart]
            · exact startsEscape_of_ne hc _
          rw [Text.unescaped_cons hstart, Text.unescaped_cons hstart', htail]

/-! ## URIs of addresses -/

theorem isPrefix_host (a : Address) : a.hostName.toList <+: a.host.toList := by
  unfold hostName
  split
  next name path hsplit =>
    obtain ⟨hhost, -⟩ := (Text.splitFirst?_eq_some_iff '/' _ name path).1 hsplit
    rw [String.toList_ofList, hhost]
    exact List.prefix_append _ _
  next => exact List.prefix_refl _

/-- What has been read has no colon in its user, and neither an at sign nor a slash in the name of
its host. -/
theorem separators_of_parse (h : parse s = .ok a) :
    ':' ∉ a.access.user.toList ∧ '@' ∉ a.hostName.toList ∧ '/' ∉ a.hostName.toList := by
  obtain ⟨p, n, hp, -, rfl⟩ := ((reads_parseTrimmed _).accepted a).1 h
  have hhost : (p.address n).host.toList = p.host := String.toList_ofList
  refine ⟨?_, ?_, ?_⟩
  · cases hlogin : p.login with
    | none =>
      simp only [access, Parts.address, hlogin]
      decide
    | some login =>
      simp only [access, Parts.address, hlogin, Option.map_some, Option.getD_some,
        String.toList_ofList]
      exact hp.user login hlogin
  · intro hmem
    have hin := (isPrefix_host _).subset hmem
    rw [hhost] at hin
    exact hp.host hin
  · refine (hostName_spec ?_).2
    rw [hhost]
    exact isHost_iff.2 ⟨hp.host_ne_nil, hp.host_head⟩

/-- The endpoint is read back from its URI exactly if its credentials hold no slash and neither they
nor its virtual host an escape sequence. -/
theorem access_readable_iff (h : parse s = .ok a) :
    readBrokerUri a.brokerUri = some a.access ↔
      ('/' ∉ a.access.user.toList ∧ '/' ∉ a.access.password.toList) ∧
      ¬ Text.HasEscape a.access.user.toList ∧ ¬ Text.HasEscape a.access.password.toList ∧
        ¬ Text.HasEscape a.access.virtualHost.toList := by
  obtain ⟨huser, hat, hslash⟩ := separators_of_parse h
  rw [readBrokerUri_eq (toList_brokerUri a)]
  let login := Parts.loginText (a.access.user.toList, some a.access.password.toList)
  have hlogin : '/' ∈ login ↔ '/' ∈ a.access.user.toList ∨ '/' ∈ a.access.password.toList := by
    change '/' ∈ _ ++ ':' :: _ ↔ _
    rw [List.mem_append, List.mem_cons, or_iff_right (a := '/' = ':') (by decide)]
  by_cases hin : '/' ∈ login
  · -- The authority ends at the first slash of the credentials.
    cases hsplit : Text.splitFirst? '/' login with
    | none => exact absurd hin ((Text.splitFirst?_eq_none_iff '/' login).1 hsplit)
    | some parts =>
      obtain ⟨authority, more⟩ := parts
      obtain ⟨heq, hnot⟩ := (Text.splitFirst?_eq_some_iff '/' login authority more).1 hsplit
      have hcut : ∀ after, Text.splitFirst? '/' (login ++ after) =
          some (authority, more ++ after) := by
        intro after
        rw [Text.splitFirst?_eq_some_iff, heq, List.append_assoc, List.cons_append]
        exact ⟨rfl, hnot⟩
      rw [List.append_assoc, hcut]
      refine iff_of_false (readAuthority_ne (b := a.access) heq) fun hclean => ?_
      exact (hlogin.1 hin).elim hclean.1.1 hclean.1.2
  · have hdigits : '/' ∉ Nat.toDigits 10 a.port := fun hmem =>
      absurd (Text.isDigit_of_mem_toDigits hmem) (by decide)
    have hnot : '/' ∉ login ++ '@' :: (a.hostName.toList ++ ':' :: Nat.toDigits 10 a.port) := by
      simp only [List.mem_append, List.mem_cons, not_or]
      exact ⟨hin, by decide, hslash, by decide, hdigits⟩
    have hpath : Text.unescape? (escapeSlashes a.access.virtualHost).toList =
        Text.unescape? a.access.virtualHost.toList := by
      rw [Text.unescape?, toList_escapeSlashes, unescaped_slashEscaped, Text.unescape?]
    rw [(Text.splitFirst?_eq_some_iff '/' _ _ _).2 ⟨rfl, hnot⟩, Option.bind_some,
      readAuthority_eq_some_iff huser hat, hpath, Text.unescape?_eq_self_iff,
      Text.unescape?_eq_self_iff, Text.unescape?_eq_self_iff]
    have hclean := not_or.1 (fun hor => hin (hlogin.2 hor))
    have hhost : String.ofList a.hostName.toList = a.access.host := String.ofList_toList
    constructor
    · rintro ⟨hu, hp, -, -, hv⟩
      exact ⟨hclean, hu, hp, hv⟩
    · rintro ⟨-, hu, hp, hv⟩
      exact ⟨hu, hp, hhost, rfl, hv⟩

/-- All that is escaped at all, and more separators than there are parts. -/
theorem access_readable_iff_crowded :
    parse "a@b:p:@%w@::1/x/y%2:+080" = .ok ⟨some "a@b", some "p:@%w", "::1/x/y%2", 80⟩ ∧
    brokerUri ⟨some "a@b", some "p:@%w", "::1/x/y%2", 80⟩ = "amqp://a@b:p:@%w@::1:80/x%2fy%2" ∧
    readBrokerUri "amqp://a@b:p:@%w@::1:80/x%2fy%2" = some ⟨"a@b", "p:@%w", "::1", 80, "x/y%2"⟩ := by
  have hparse : parse "a@b:p:@%w@::1/x/y%2:+080" =
      .ok ⟨some "a@b", some "p:@%w", "::1/x/y%2", 80⟩ := by rfl
  have huri : brokerUri ⟨some "a@b", some "p:@%w", "::1/x/y%2", 80⟩ =
      "amqp://a@b:p:@%w@::1:80/x%2fy%2" := by rfl
  have hread := (access_readable_iff hparse).2 (by decide +kernel)
  rw [huri] at hread
  exact ⟨hparse, huri, hread⟩

/-- A slash in the password ends the authority. -/
theorem exists_access_unreadable :
    ¬ ∀ (s : String) (a : Address), parse s = .ok a → readBrokerUri a.brokerUri = some a.access := by
  intro hall
  have h := hall "u:p/w@mq:5672" ⟨some "u", some "p/w", "mq", 5672⟩ (by rfl)
  revert h
  decide +kernel

end EvictionBus.Address

import EvictionBus.Proofs.Address.Grammar

/-!
# How addresses are shown

The text of an address is the address as it is written, with three stars for the password and the
port without a sign or leading zeros.  Nothing in it is cut off or split elsewhere when it is read:
all of the address but the password comes back.
-/

namespace EvictionBus.Address

variable {s t : String} {a b : Address}

/-- The address that the text shows. -/
def masked (a : Address) : Address :=
  { a with password := a.password.map fun _ => "***" }

theorem text_masked (a : Address) : a.masked.text = a.text := by
  obtain ⟨user, password, host, port⟩ := a
  cases password <;> rfl

theorem masked_eq_iff : a.masked = b.masked ↔
    a.user = b.user ∧ a.password.isSome = b.password.isSome ∧ a.host = b.host ∧ a.port = b.port := by
  obtain ⟨user, password, host, port⟩ := a
  obtain ⟨user', password', host', port'⟩ := b
  rw [masked, masked, Address.mk.injEq]
  cases password <;> cases password' <;> simp

theorem WritesPort.toDigits {n : Nat} {text : List Char} (h : WritesPort text n) :
    WritesPort (Nat.toDigits 10 n) n := by
  obtain ⟨_, -, -, -, hpos, hle⟩ := h
  refine ⟨_, .inl rfl, ⟨Nat.toDigits_ne_nil, ?_⟩, Text.ofDigits_toDigits n, hpos, hle⟩
  exact List.all_eq_true.2 fun _ => Text.isDigit_of_mem_toDigits

/-- A digit of a port is never trimmed. -/
theorem isBlank_of_isDigit {c : Char} (h : Text.isDigit c) : Text.isBlank c = false := by
  have hall : ∀ n < 58, 48 ≤ n →
      (Text.whiteSpaceRanges.any fun r => r.1 ≤ n && n ≤ r.2) = false := by
    decide
  rw [Text.isDigit, Bool.and_eq_true, decide_eq_true_eq, decide_eq_true_eq] at h
  exact hall c.toNat (Nat.lt_succ_of_le h.2) h.1

namespace Parts

variable {p : Parts} {n : Nat}

/-- The parts of the text that shows the address. -/
def shown (p : Parts) (n : Nat) : Parts :=
  ⟨p.login.map fun login => (login.1, login.2.map fun _ => "***".toList), p.host,
    Nat.toDigits 10 n⟩

theorem address_shown (p : Parts) (n : Nat) : (p.shown n).address n = (p.address n).masked := by
  obtain ⟨_ | ⟨user, _ | password⟩, host, port⟩ := p <;> rfl

theorem text_shown (p : Parts) (n : Nat) : (p.shown n).text = (p.address n).text.toList := by
  obtain ⟨_ | ⟨user, _ | password⟩, host, port⟩ := p <;>
    simp [shown, text, front, loginText, address, Address.text]

theorem WellFormed.shown (h : p.WellFormed n) : (p.shown n).WellFormed n where
  user := by
    intro login hlogin
    obtain ⟨login', hlogin', rfl⟩ := Option.map_eq_some_iff.1 hlogin
    exact h.user login' hlogin'
  host := h.host
  port := WritesPort.toDigits h.port
  host_ne_nil := h.host_ne_nil
  host_head := h.host_head

/-- What is shown starts as what was written. -/
theorem head?_shown (p : Parts) (n : Nat) : (p.shown n).text.head? = p.text.head? := by
  obtain ⟨_ | ⟨user, _ | password⟩, host, port⟩ := p <;>
    simp [Parts.shown, text, front, loginText, List.head?_append]

theorem trimmed_shown (h : Text.Trimmed p.text) : Text.Trimmed (p.shown n).text where
  head := by
    rw [head?_shown]
    exact h.head
  last := by
    intro c hc
    -- The text ends with a digit of the port.
    have hne : (p.shown n).port ≠ [] := Nat.toDigits_ne_nil
    rw [text, List.append_cons, List.getLast?_append, List.getLast?_eq_some_getLast hne,
      Option.some_or, Option.some.injEq] at hc
    rw [← hc]
    exact isBlank_of_isDigit (Text.isDigit_of_mem_toDigits (List.getLast_mem hne))

end Parts

/-! ## Reading what is shown -/

theorem parse_text (h : parse s = .ok a) : parse a.text = .ok a.masked := by
  obtain ⟨p, n, hp, htext, rfl⟩ := ((reads_parseTrimmed _).accepted a).1 h
  have htrimmed : Text.Trimmed p.text := htext ▸ (Text.trims_trim s.toList).toTrimmed
  rw [parse, ← Parts.text_shown, Text.trim_eq_self (Parts.trimmed_shown htrimmed),
    parseTrimmed_of_wellFormed hp.shown, Parts.address_shown]

/-- The text of an address that was read is read as the same address with stars for its password,
so that it shows all but the password. -/
theorem text_reads_back (ha : parse s = .ok a) (hb : parse t = .ok b) :
    parse a.text = .ok a.masked ∧ (parse a.text).map text = .ok a.text ∧
    (a.text = b.text ↔
      a.user = b.user ∧ a.password.isSome = b.password.isSome ∧ a.host = b.host ∧
        a.port = b.port) := by
  have hshown := parse_text ha
  refine ⟨hshown, ?_, ?_⟩
  · rw [hshown, Except.map, text_masked]
  · rw [← masked_eq_iff]
    constructor
    · intro htext
      rw [htext, parse_text hb] at hshown
      exact (Except.ok.inj hshown).symm
    · intro hmasked
      rw [← text_masked a, hmasked, text_masked]

theorem text_reads_back_crowded :
    parse "\u3000a@b:p:@w@ ::1:+080" = .ok ⟨some "a@b", some "p:@w", " ::1", 80⟩ ∧
    parse "a@b:@ ::1:80 " = .ok ⟨some "a@b", some "", " ::1", 80⟩ ∧
    text ⟨some "a@b", some "p:@w", " ::1", 80⟩ = "a@b:***@ ::1:80" ∧
    parse "a@b:***@ ::1:80" = .ok ⟨some "a@b", some "***", " ::1", 80⟩ ∧
    text ⟨some "a@b", some "p:@w", " ::1", 80⟩ = text ⟨some "a@b", some "", " ::1", 80⟩ := by
  have hparse : parse "\u3000a@b:p:@w@ ::1:+080" = .ok ⟨some "a@b", some "p:@w", " ::1", 80⟩ := by
    rfl
  have hparse' : parse "a@b:@ ::1:80 " = .ok ⟨some "a@b", some "", " ::1", 80⟩ := by rfl
  obtain ⟨hread, -, htext⟩ := text_reads_back hparse hparse'
  have hshown : text ⟨some "a@b", some "p:@w", " ::1", 80⟩ = "a@b:***@ ::1:80" := by rfl
  rw [hshown] at hread
  exact ⟨hparse, hparse', hshown, hread, htext.2 ⟨rfl, rfl, rfl, rfl⟩⟩

end EvictionBus.Address

import MediaHost.Proofs.Layout

/-!
# Proofs — Literals

What a reader makes of the front of a text (`Reader.found`), whatever ends it (`Reader.Scans`),
and what the readers of quoted texts make of one: the text that is spelled
(`quotedTail_spells`).
-/

namespace MediaHost.Json

namespace Reader
variable {α β : Type} {cs l : List Char}

/-- The value at the front of a text and what is left of the text; none if there is a fault. -/
def found (r : Reader α) (cs : List Char) : Option (α × List Char) := (r cs).toOption

/-- The reader makes `o` of `l`, whatever ends it, and leaves what ends it. -/
def Scans (r : Reader α) (l : List Char) (o : Option α) : Prop :=
  ∀ rest, Ends rest → r.found (l ++ rest) = o.map (·, rest)

@[simp] theorem found_pure (a : α) : found (pure a) cs = some (a, cs) := rfl

@[simp] theorem found_fail (fault : Fault) : found (fail fault : Reader α) cs = none := rfl

/-- What comes next goes on with what is left. -/
@[simp] theorem found_bind (r : Reader α) (f : α → Reader β) :
    found (r >>= f) cs = (r.found cs).bind fun p => (f p.1).found p.2 := by
  simp only [found, bind, StateT.bind, Except.bind]
  cases r cs <;> rfl

@[simp] theorem found_map (r : Reader α) (f : α → β) :
    found (f <$> r) cs = (r.found cs).map fun p => (f p.1, p.2) := by
  simp only [found, Functor.map, StateT.map, bind, Except.bind]
  cases r cs <;> rfl

@[simp] theorem found_peek : found peek cs = some (cs.head?, cs) := rfl

/-- Looking at the next token passes over the spaces before it. -/
@[simp] theorem found_peekToken :
    found peekToken cs = some ((skipSpaces cs).head?, skipSpaces cs) := rfl

@[simp] theorem found_advance (c : Char) : found advance (c :: cs) = some ((), cs) := rfl

end Reader

/-! ### Quoted texts -/

section
variable {s l ds es rest : List Char} {c : Char} {m n : Nat}

/-- Four digits are read as the number they are in base 16. -/
theorem hexEscape_append (h : Hex n ds) : hexEscape (ds ++ rest) = .ok (n, rest) := by
  obtain ⟨a, b, c, d, hds, rfl⟩ := h
  rcases ds with _ | ⟨w, _ | ⟨x, _ | ⟨y, _ | ⟨z, _ | ⟨_, _⟩⟩⟩⟩⟩ <;> simp at hds
  obtain ⟨hw, hx, hy, hz⟩ := hds
  simp [hexEscape, hw, hx, hy, hz]

/-- An escape of one letter is the character in the table. -/
theorem escapeTail_short {numeric : List Char → Except Fault (Char × List Char)} {letter : Char}
    (h : (letter, c) ∈ shortEscapes) :
    escapeTail numeric (letter :: rest) = .ok (c, rest) := by
  simp only [shortEscapes, List.mem_cons, Prod.mk.injEq, List.not_mem_nil, or_false] at h
  rcases h with ⟨rfl, rfl⟩ | ⟨rfl, rfl⟩ | ⟨rfl, rfl⟩ | ⟨rfl, rfl⟩ | ⟨rfl, rfl⟩ | ⟨rfl, rfl⟩ |
    ⟨rfl, rfl⟩ | ⟨rfl, rfl⟩ <;> rfl

/-- No character has the number of a surrogate. -/
theorem not_surrogate (c : Char) :
    isLowSurrogate c.toNat = false ∧ isHighSurrogate c.toNat = false := by
  have := c.valid
  simp only [UInt32.isValidChar, Nat.isValidChar, isLowSurrogate, isHighSurrogate,
    Char.toNat] at *
  grind

/-- A numeric escape that is no surrogate is its character. -/
theorem escapedChar_numeric (h : Hex c.toNat ds) : escapedChar (ds ++ rest) = .ok (c, rest) := by
  obtain ⟨hlow, hhigh⟩ := not_surrogate c
  simp [escapedChar, hexEscape_append h, hlow, hhigh, bind, Except.bind, pure, Except.pure]

/-- Two surrogates are one character together. -/
theorem escapedChar_pair (high : Hex (0xd800 + m) ds) (low : Hex (0xdc00 + n) es) (hm : m < 0x400)
    (hn : n < 0x400) (number : c.toNat = 0x10000 + m * 0x400 + n) :
    escapedChar (ds ++ '\\' :: 'u' :: (es ++ rest)) = .ok (c, rest) := by
  have h₁ : isLowSurrogate (0xd800 + m) = false := by simp [isLowSurrogate]; omega
  have h₂ : isHighSurrogate (0xd800 + m) = true := by simp [isHighSurrogate]; omega
  have h₃ : isLowSurrogate (0xdc00 + n) = true := by simp [isLowSurrogate]; omega
  have hc : 0x10000 + m * 0x400 + n = c.toNat := number.symm
  simp [escapedChar, hexEscape_append high, hexEscape_append low, h₁, h₂, h₃, hc, bind,
    Except.bind, pure, Except.pure]

/-- A spelled text is read as what it spells. -/
theorem quotedTail_spells (h : Spells s l) : ∀ budget taken, l.length ≤ budget.length →
    quotedTail escapedChar budget taken (l ++ rest) = .ok (taken.reverse ++ s, rest) := by
  induction h with
  | close =>
      rintro (_ | ⟨_, budget⟩) taken hb
      · simp at hb
      · simp [quotedTail]
  | @plain c _ _ low quote slash _ ih =>
      rintro (_ | ⟨_, budget⟩) taken hb
      · simp at hb
      · have := ih budget (c :: taken) (by simpa using hb)
        simp [quotedTail, Char.not_lt.mpr low, this]
  | @short _ c _ _ letter_mem _ ih =>
      rintro (_ | ⟨_, budget⟩) taken hb
      · simp at hb
      · have := ih budget (c :: taken) (by simp at hb; omega)
        simp [quotedTail, escapeTail_short letter_mem, this, bind, Except.bind]
  | @numeric c _ _ _ hex _ ih =>
      rintro (_ | ⟨_, budget⟩) taken hb
      · simp at hb
      · have := ih budget (c :: taken) (by simp at hb; omega)
        simp [quotedTail, escapeTail, escapedChar_numeric hex, this, bind, Except.bind]
  | @pair c _ _ _ _ _ _ high low hm hn number _ ih =>
      rintro (_ | ⟨_, budget⟩) taken hb
      · simp at hb
      · have := ih budget (c :: taken) (by simp at hb; omega)
        simp [quotedTail, escapeTail, escapedChar_pair high low hm hn number, this, bind,
          Except.bind]

/-- A spelled text is passed over to its end. -/
theorem quotedTail_passes (h : Spells s l) : ∀ budget taken, l.length ≤ budget.length →
    ∃ t, quotedTail anyEscape budget taken (l ++ rest) = .ok (t, rest) := by
  induction h with
  | close =>
      rintro (_ | ⟨_, budget⟩) taken hb
      · simp at hb
      · exact ⟨_, by simp [quotedTail]; rfl⟩
  | @plain c _ _ low quote slash _ ih =>
      rintro (_ | ⟨_, budget⟩) taken hb
      · simp at hb
      · obtain ⟨t, ht⟩ := ih budget (c :: taken) (by simpa using hb)
        exact ⟨t, by simp [quotedTail, Char.not_lt.mpr low, ht]⟩
  | @short _ c _ _ letter_mem _ ih =>
      rintro (_ | ⟨_, budget⟩) taken hb
      · simp at hb
      · obtain ⟨t, ht⟩ := ih budget (c :: taken) (by simp at hb; omega)
        exact ⟨t, by simp [quotedTail, escapeTail_short letter_mem, ht, bind, Except.bind]⟩
  | numeric hex _ ih =>
      rintro (_ | ⟨_, budget⟩) taken hb
      · simp at hb
      · obtain ⟨t, ht⟩ := ih budget ('\ufffd' :: taken) (by simp at hb; omega)
        exact ⟨t, by simp [quotedTail, escapeTail, anyEscape, hexEscape_append hex, ht, bind,
          Except.bind, pure, Except.pure]⟩
  | pair high low _ _ _ _ ih =>
      -- Each half is an escape of its own.
      rintro (_ | ⟨_, _ | ⟨_, budget⟩⟩) taken hb
      · simp at hb
      · simp at hb
      · obtain ⟨t, ht⟩ := ih budget ('\ufffd' :: '\ufffd' :: taken) (by simp at hb; omega)
        exact ⟨t, by simp [quotedTail, escapeTail, anyEscape, hexEscape_append high,
          hexEscape_append low, ht, bind, Except.bind, pure, Except.pure]⟩

/-- A text that is read. -/
theorem found_textTail (h : Spells s l) :
    Reader.textTail.found (l ++ rest) = some (String.ofList s, rest) := by
  have := @quotedTail_spells s l rest h (l ++ rest) [] (by simp)
  simp [Reader.found, Reader.textTail, this, Except.map, Except.toOption]

/-- A text that is passed over. -/
theorem found_skipTextTail (h : Spells s l) :
    Reader.skipTextTail.found (l ++ rest) = some ((), rest) := by
  obtain ⟨t, ht⟩ := @quotedTail_passes s l rest h (l ++ rest) [] (by simp)
  simp [Reader.found, Reader.skipTextTail, ht, Except.map, Except.toOption]

end

end MediaHost.Json

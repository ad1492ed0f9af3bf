import MediaHost.Proofs.Skipping

/-!
# Proofs — Locality

What a reader makes of a value depends on the value alone, and on nothing around it (`Local`).
Every reader of a known shape is local, fitting value or not; so a record can be told from what
its fields make of their own values, member by member or item by item (`found_members`,
`found_elements`).
-/

namespace MediaHost.Json

namespace Reader
variable {α β : Type} {r : Reader α} {k : Option Char → Reader α} {o : Option α}
variable {b cs l pad rest : List Char}

/-- The reader makes `o` of the value `l`, whatever spaces come before it and whatever ends
it. -/
def Reads (r : Reader α) (l : List Char) (o : Option α) : Prop :=
  ∀ b rest, Blank b → Ends rest → r.found (b ++ (l ++ rest)) = o.map (·, rest)

/-- What the reader makes of a value that stands alone. -/
def outcome (r : Reader α) (l : List Char) : Option α := (r.found l).map Prod.fst

/-- What the reader makes of a value depends on nothing around it. -/
def Local (r : Reader α) : Prop := ∀ l, Value l → r.Reads l (r.outcome l)

/-- A value that stands alone is read as it is anywhere. -/
theorem Reads.outcome (h : r.Reads l o) : r.outcome l = o := by
  have := h [] [] .nil .nil
  simp only [List.nil_append, List.append_nil] at this
  rw [Reader.outcome, this]
  cases o <;> rfl

/-- A reader is local if the surroundings of a value never matter to it. -/
theorem local_of (h : ∀ l, Value l → ∃ o, r.Reads l o) : r.Local := by
  intro l hl
  obtain ⟨o, ho⟩ := h l hl
  rwa [ho.outcome]

/-- What is done to the result is done to what is read. -/
theorem Reads.map (h : r.Reads l o) (f : α → β) : (f <$> r).Reads l (o.map f) := by
  intro b rest hb hr
  rw [found_map, h b rest hb hr]
  cases o <;> rfl

theorem Local.map (h : r.Local) (f : α → β) : (f <$> r).Local :=
  local_of fun l hl => ⟨_, (h l hl).map f⟩

/-- What comes after the reader leaves the text alone. -/
theorem Reads.bind (h : r.Reads l o) {f : α → Reader β} {g : α → Option β}
    (hf : ∀ a cs, (f a).found cs = (g a).map (·, cs)) : (r >>= f).Reads l (o.bind g) := by
  intro b rest hb hr
  rw [found_bind, h b rest hb hr]
  cases o with
  | none => rfl
  | some a => exact hf a rest

theorem Reads.bind_pure (h : r.Reads l o) (f : α → β) :
    (r >>= fun a => pure (f a)).Reads l (o.map f) := by
  intro b rest hb hr
  rw [found_bind, h b rest hb hr]
  cases o <;> rfl

/-- What comes after a local reader and reads nothing more keeps it local. -/
theorem Local.bind (h : r.Local) {f : α → Reader β}
    (hf : ∀ a, ∃ o : Option β, ∀ cs, (f a).found cs = o.map (·, cs)) : (r >>= f).Local := by
  choose g hg using hf
  exact local_of fun l hl => ⟨_, (h l hl).bind hg⟩

/-- A reader that goes by the first character of the value. -/
theorem reads_token (hl : Value l) (h : Scans (k l.head?) l o) : Reads (peekToken >>= k) l o := by
  obtain ⟨c, cs, rfl, hc, -⟩ := hl.head
  intro b rest hb hr
  rw [found_token _ hb, List.cons_append, found_token_cons _ hc]
  exact h rest hr

/-! ### Scalars -/

/-- A value of the wrong shape is a fault, whatever it is. -/
@[simp] theorem found_wrongShape : found (wrongShape : Reader α) cs = none := by
  simp only [wrongShape, found_bind, found_peek, Option.bind_some]
  split
  all_goals simp
  split <;> simp

/-- A reader that has no use for a number refuses all of them. -/
theorem reads_number_wrong (h : Numeral l)
    (hk : ∀ c ∈ '-' :: decimalDigits, k (some c) = wrongShape) :
    Reads (peekToken >>= k) l none := by
  obtain ⟨c, cs, rfl, hc⟩ := h.head
  refine reads_token (.number h) fun rest _ => ?_
  rw [List.head?_cons, hk c hc]
  exact found_wrongShape

/-- A truth value is one of two words; all else is refused. -/
theorem boolean_local : boolean.Local := by
  refine local_of fun l hl => ?_
  have value := hl
  cases hl with
  | yes => exact ⟨some true, reads_token .yes fun _ _ => rfl⟩
  | no => exact ⟨some false, reads_token .no fun _ _ => rfl⟩
  | number numeral => exact ⟨none, reads_number_wrong numeral (by simp [decimalDigits])⟩
  | nothing | text | array | object =>
      exact ⟨none, reads_token value fun _ _ => found_wrongShape⟩

/-- A text is read as what it spells. -/
theorem reads_text {s : String} {q : List Char} (h : Spells s.toList q) :
    text.Reads ('"' :: q) (some s) := by
  refine reads_token (.text h) fun rest _ => ?_
  simp [found_textTail h]

theorem text_local : text.Local := by
  refine local_of fun l hl => ?_
  have value := hl
  cases hl with
  | @text s _ spelled =>
      exact ⟨some (String.ofList s), reads_text (by rwa [String.toList_ofList])⟩
  | number numeral => exact ⟨none, reads_number_wrong numeral (by simp [decimalDigits])⟩
  | nothing | yes | no | array | object =>
      exact ⟨none, reads_token value fun _ _ => found_wrongShape⟩

/-- What is not the word for nothing is left to the reader. -/
theorem optional_of_ne (hl : Value l) (hne : l.head? ≠ some 'n') (h : r.Reads l o) :
    (optional r).Reads l (o.map some) := by
  refine reads_token hl fun rest hr => ?_
  have h := h [] rest .nil hr
  simp only [List.nil_append] at h
  split
  · next hn => exact absurd hn hne
  · rw [found_bind, h]
    cases o <;> rfl

/-- What may be nothing is local if what it may be is. -/
theorem Local.optional (h : r.Local) : (optional r).Local := by
  refine local_of fun l hl => ?_
  have value := hl
  cases hl with
  | nothing => exact ⟨some none, reads_token .nothing fun _ _ => rfl⟩
  | number numeral =>
      obtain ⟨c, cs, rfl, hc⟩ := numeral.head
      refine ⟨_, optional_of_ne value ?_ (h _ value)⟩
      rintro ⟨⟩
      exact absurd hc (by decide)
  | yes | no | text | array | object =>
      exact ⟨_, optional_of_ne value (by simp [arrayText, objectText]) (h _ value)⟩

theorem nothing_local : nothing.Local := by
  refine local_of fun l hl => ?_
  have value := hl
  cases hl with
  | nothing => exact ⟨some (), reads_token .nothing fun _ _ => rfl⟩
  | number numeral => exact ⟨none, reads_number_wrong numeral (by simp [decimalDigits])⟩
  | yes | no | text | array | object =>
      exact ⟨none, reads_token value fun _ _ => found_wrongShape⟩

/-- A number is told by its first character, and the rest is the literal. -/
theorem reads_number {o : Option Number} (hl : Numeral l) (h : number.Scans l o) :
    anyNumber.Reads l o := by
  obtain ⟨c, cs, rfl, hc⟩ := hl.head
  have hnum : ∀ c ∈ '-' :: decimalDigits, (c = '-' || isDigit c) = true := by
    simp [decimalDigits, isDigit, digit?]
  refine reads_token (.number hl) ?_
  simp only [List.head?_cons, hnum c hc, if_true]
  exact h

theorem anyNumber_local : anyNumber.Local := by
  refine local_of fun l hl => ?_
  have value := hl
  cases hl with
  | number numeral =>
      obtain ⟨o, ho⟩ := number_scans numeral
      exact ⟨o, reads_number numeral ho⟩
  | nothing | yes | no | text | array | object =>
      exact ⟨none, reads_token value fun _ _ => found_wrongShape⟩

/-- The integer that a number is, within the bounds. -/
def integerOf (lo hi : Int) : Number → Option Int
  | .natural n => if lo ≤ n && n ≤ hi then some n else none
  | .negative n => if lo ≤ -n && -n ≤ hi then some (-n) else none
  | .real _ => none

/-- An integer is a number that is one and is within the bounds. -/
theorem reads_integer {o : Option Number} (lo hi : Int) (h : anyNumber.Reads l o) :
    (integer lo hi).Reads l (o.bind (integerOf lo hi)) := by
  refine h.bind fun n cs => ?_
  have check (i : Int) :
      found (if (lo ≤ i && i ≤ hi) = true then pure i else fail .mismatch : Reader Int) cs =
        (if (lo ≤ i && i ≤ hi) = true then some i else none).map (·, cs) := by
    split <;> rfl
  cases n with
  | natural n => exact check n
  | negative n => exact check (-n)
  | real => rfl

/-- The bounds are asked of the value alone. -/
theorem integer_local (lo hi : Int) : (integer lo hi).Local :=
  local_of fun l hl => ⟨_, reads_integer lo hi (anyNumber_local l hl)⟩

theorem uint16_local : uint16.Local := (integer_local _ _).bind fun _ => ⟨some _, fun _ => rfl⟩

theorem uint32_local : uint32.Local := (integer_local _ _).bind fun _ => ⟨some _, fun _ => rfl⟩

theorem uint64_local : uint64.Local := (integer_local _ _).bind fun _ => ⟨some _, fun _ => rfl⟩

theorem int32_local : int32.Local := (integer_local _ _).bind fun _ => ⟨some _, fun _ => rfl⟩

/-- The floating-point number nearest to an integer; any other number is converted. -/
def rounded {F : Format} (convert : Double → Binary F) : Number → Binary F
  | .natural n => Binary.ofNat n
  | .negative n => Binary.ofInt (-n)
  | .real x => convert x

/-- A double is any number, rounded. -/
theorem reads_double {o : Option Number} (h : anyNumber.Reads l o) :
    double.Reads l (o.map (rounded id)) := by
  rw [Option.map_eq_bind]
  refine h.bind fun n cs => ?_
  cases n <;> rfl

/-- A single is any number, rounded, a real one by way of the double. -/
theorem reads_single {o : Option Number} (h : anyNumber.Reads l o) :
    single.Reads l (o.map (rounded Binary.convert)) := by
  rw [Option.map_eq_bind]
  refine h.bind fun n cs => ?_
  cases n <;> rfl

theorem double_local : double.Local :=
  local_of fun l hl => ⟨_, reads_double (anyNumber_local l hl)⟩

theorem single_local : single.Local :=
  local_of fun l hl => ⟨_, reads_single (anyNumber_local l hl)⟩

/-! ### Choices -/

/-- A key is read as what it spells. -/
theorem found_key_quoted {m : Member} (hm : m.Formed) :
    found key ('"' :: (m.key ++ cs)) = some (m.name, cs) := by
  rw [key, found_token_cons _ (by decide)]
  simp [found_textTail hm.key]

/-- After the key of a member come its colon and its value. -/
theorem found_key {m : Member} (hb : Blank b) (hm : m.Formed) :
    found key (b ++ (m.text ++ cs)) =
      some (m.name, m.afterKey ++ ':' :: (m.toSlot.text ++ cs)) := by
  have := @found_key_quoted (m.afterKey ++ ':' :: (m.toSlot.text ++ cs)) m hm
  rw [key] at this ⊢
  rw [text_append, found_token _ hb, found_token _ hm.beforeKey, this]

/-- Where an object ends there is no key. -/
theorem found_key_brace (hb : Blank b) : found key (b ++ '}' :: cs) = none := by
  rw [key, found_token _ hb, found_token_cons _ (by decide)]
  rfl

/-- What a reader makes of the value in a slot, and the spaces after it. -/
theorem Reads.slot {s : Slot} (h : r.Reads s.value o) (hs : s.Formed) (hb : Blank b)
    (hr : Ends rest) :
    r.found (b ++ (s.text ++ rest)) = o.map (·, s.after ++ rest) := by
  have := h (b ++ s.before) (s.after ++ rest) (hb.append hs.before) (hr.append hs.after)
  simpa [Slot.text] using this

/-- A choice is looked up by its name, and nothing more is read. -/
@[simp] theorem found_choiceNamed (choices : List (String × α)) (name : String) :
    found (choiceNamed choices name) cs = (choices.lookup name).map (·, cs) := by
  unfold choiceNamed
  cases choices.lookup name <;> rfl

/-- A choice is the one member of its object. -/
theorem found_choice_end (chosen : α) (ts : List (List Char)) (hb : Blank b) (hp : Blank pad) :
    found (do
        match ← peekToken with
        | none => fail .endOfText
        | some '}' => advance; return chosen
        | some _ => fail .malformed) (b ++ (entries false ts ++ (pad ++ '}' :: rest))) =
      if ts = [] then some (chosen, rest) else none := by
  rw [found_token _ hb]
  cases ts with
  | nil =>
      rw [entries, List.nil_append, found_token _ hp, found_token_cons _ (by decide)]
      rfl
  | cons t ts =>
      simp only [entries, Bool.false_eq_true, if_false, List.cons_append]
      rw [found_token_cons _ (by decide)]
      rfl

/-- In a text the choice is the name that is spelled. -/
theorem reads_choice_text (choices : List (String × α)) {s : String} {q : List Char}
    (h : Spells s.toList q) : (choice choices).Reads ('"' :: q) (choices.lookup s) := by
  refine reads_token (.text h) fun rest _ => ?_
  simp [found_textTail h]

/-- In an object the choice is the name of its first member, which is to be its last and to have
nothing as its value. -/
theorem reads_choice_object (choices : List (String × α)) {m : Member} {ms : List Member}
    (formed : ∀ n ∈ m :: ms, n.Formed) (values : ∀ n ∈ m :: ms, Value n.value)
    (blank : Blank pad) :
    (choice choices).Reads (objectText (m :: ms) pad)
      ((choices.lookup m.name).bind fun chosen =>
        (nothing.outcome m.value).bind fun _ => if ms = [] then some chosen else none) := by
  refine reads_token (.object formed values blank) fun rest _ => ?_
  have hm := formed m (by simp)
  have hkey (cs : List Char) := @found_key [] cs m .nil hm
  have hends := @ends_entries pad rest '}' (ms.map Member.text) blank (by simp)
  have hvalue := (nothing_local m.value (values m (by simp))).slot hm.toFormed .nil hends
  simp only [List.nil_append] at hkey hvalue
  simp only [objectText, List.head?_cons, List.map_cons, entries, if_true, List.cons_append,
    List.append_assoc, List.nil_append, found_bind, found_advance, Option.bind_some, hkey,
    found_choiceNamed]
  cases choices.lookup m.name with
  | none => rfl
  | some chosen =>
      simp only [Option.map_some, Option.bind_some, found_colon hm.afterKey, hvalue]
      cases nothing.outcome m.value with
      | none => rfl
      | some =>
          refine (found_choice_end chosen (ms.map Member.text) hm.after blank).trans ?_
          cases ms <;> rfl

/-- A choice is a text or an object; all else is refused. -/
theorem choice_local (choices : List (String × α)) : (choice choices).Local := by
  refine local_of fun l hl => ?_
  have value := hl
  cases hl with
  | @text s _ spelled =>
      exact ⟨_, reads_choice_text choices (by rwa [String.toList_ofList])⟩
  | number numeral =>
      obtain ⟨c, cs, rfl, hc⟩ := numeral.head
      refine ⟨none, reads_token value fun rest _ => ?_⟩
      simp only [decimalDigits, List.mem_cons, List.not_mem_nil, or_false] at hc
      rcases hc with rfl | rfl | rfl | rfl | rfl | rfl | rfl | rfl | rfl | rfl | rfl <;> rfl
  | nothing | yes | no | array => exact ⟨none, reads_token value fun _ _ => rfl⟩
  | @object ms pad formed values blank =>
      cases ms with
      | cons m ms => exact ⟨_, reads_choice_object choices formed values blank⟩
      | nil =>
          refine ⟨none, reads_token value fun rest _ => ?_⟩
          have hkey := @found_key_brace pad rest blank
          simp [objectText, entries, hkey]

end Reader
end MediaHost.Json

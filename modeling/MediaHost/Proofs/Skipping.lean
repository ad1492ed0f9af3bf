import MediaHost.Proofs.Numerals

/-!
# Proofs — Skipping

Passing over a value of any shape.  The steps of `skipFrom` keep a list of open brackets where
the grammar is nested; what ties the two is that a value that is awaited is passed over with
whatever is open around it left open (`passes_value`), which goes by induction over the value.
-/

namespace MediaHost.Json

namespace Bracket

def opener : Bracket → Char
  | .array => '['
  | .object => '{'

def closer : Bracket → Char
  | .array => ']'
  | .object => '}'

end Bracket

namespace Reader

variable {b cs l pad rest : List Char} {opened : List Bracket} {c : Char}

@[simp] theorem found_get : found get cs = some (cs, cs) := rfl

/-- Spaces before the next token are skipped. -/
theorem found_token {α : Type} (k : Option Char → Reader α) (hb : Blank b) :
    found (peekToken >>= k) (b ++ cs) = found (peekToken >>= k) cs := by
  simp [skipSpaces_append hb]

/-- The next token is seen at its first character. -/
theorem found_token_cons {α : Type} (k : Option Char → Reader α) (hc : isSpace c = false) :
    found (peekToken >>= k) (c :: cs) = found (k (some c)) (c :: cs) := by
  simp [skipSpaces_cons hc]

theorem found_colon (hb : Blank b) : found colon (b ++ ':' :: cs) = some ((), cs) := by
  rw [colon, found_token _ hb, found_token_cons _ (by decide)]
  rfl

theorem text_append (m : Member) (cs : List Char) :
    m.text ++ cs =
      m.beforeKey ++ '"' :: (m.key ++ (m.afterKey ++ ':' :: (m.toSlot.text ++ cs))) := by
  simp [Member.text]

/-- A key is passed over with the colon behind it. -/
theorem found_skipKey {m : Member} (hm : m.Formed) :
    found skipKey ('"' :: (m.key ++ (m.afterKey ++ ':' :: cs))) = some ((), cs) := by
  rw [skipKey, found_token_cons _ (by decide)]
  simp only [found_bind, found_advance, Option.bind_some, found_skipTextTail hm.key]
  exact found_colon hm.afterKey

/-! ### Steps -/

/-- Where passing over a value stands: what is open, what is awaited, and the text ahead. -/
abbrev Place := List Bracket × Awaiting × List Char

/-- Passing over a value comes from one place to the other, the budget lasting as long as the
text does. -/
def Passes (p q : Place) : Prop :=
  ∀ budget : List Char, p.2.2.length ≤ budget.length →
    ∃ budget' : List Char, q.2.2.length ≤ budget'.length ∧
      found (skipFrom budget p.1 p.2.1) p.2.2 = found (skipFrom budget' q.1 q.2.1) q.2.2

theorem Passes.trans {p q r : Place} (h₁ : Passes p q) (h₂ : Passes q r) : Passes p r := by
  intro budget hp
  obtain ⟨budget₁, hq, h₁⟩ := h₁ budget hp
  obtain ⟨budget₂, hr, h₂⟩ := h₂ budget₁ hq
  exact ⟨budget₂, hr, h₁.trans h₂⟩

theorem skipFrom_cons {awaiting : Awaiting} (h : opened = [] → awaiting ≠ .next) (d : Char)
    (budget : List Char) :
    skipFrom (d :: budget) opened awaiting =
      skipStep opened awaiting >>= fun p => skipFrom budget p.1 p.2 := by
  cases opened with
  | cons => rfl
  | nil =>
      cases awaiting with
      | next => exact absurd rfl (h rfl)
      | value | first => rfl

/-- One step of the scanner passes what it reads, as long as that is something. -/
theorem Passes.step {awaiting : Awaiting} {q : Place} (h : opened = [] → awaiting ≠ .next)
    (hstep : found (skipStep opened awaiting) cs = some ((q.1, q.2.1), q.2.2))
    (hlt : q.2.2.length < cs.length) : Passes (opened, awaiting, cs) q := by
  rintro (_ | ⟨d, budget⟩) hb
  · have hb : cs.length ≤ 0 := hb
    omega
  · refine ⟨budget, by simp only [List.length_cons] at hb; omega, ?_⟩
    simp [skipFrom_cons h, hstep]

/-- Two places from which the next step is the same. -/
theorem Passes.of_step_eq {opened' : List Bracket} {awaiting awaiting' : Awaiting}
    (h : opened = [] → awaiting ≠ .next) (h' : opened' = [] → awaiting' ≠ .next)
    (hstep : found (skipStep opened awaiting) cs = found (skipStep opened' awaiting') cs) :
    Passes (opened, awaiting, cs) (opened', awaiting', cs) := by
  rintro (_ | ⟨d, budget⟩) hb
  · refine ⟨[], hb, ?_⟩
    have nothing {o : List Bracket} {a : Awaiting} (h : o = [] → a ≠ .next) :
        skipFrom [] o a = fail .endOfText := by
      cases o with
      | cons => rfl
      | nil => cases a <;> first | rfl | exact absurd rfl (h rfl)
    simp only [nothing h, nothing h']
  · exact ⟨d :: budget, hb, by simp [skipFrom_cons h, skipFrom_cons h', hstep]⟩

/-- A value that is passed over, whatever is open around it. -/
def Passed (l : List Char) : Prop :=
  ∀ opened b rest, Blank b → Ends rest →
    Passes (opened, .value, b ++ (l ++ rest)) (opened, .next, rest)

/-- Blanks before a value are passed over. -/
theorem found_skipStart (hb : Blank b) :
    found (skipStart opened) (b ++ cs) = found (skipStart opened) cs := by
  rw [skipStart, found_bind, found_bind, skipToken, found_token _ hb]

/-- The first entry of an array is awaited like any value. -/
theorem passes_first (hb : Blank b) (hc : isSpace c = false) (hne : c ≠ ']') :
    Passes (.array :: opened, .first, b ++ c :: cs) (.array :: opened, .value, b ++ c :: cs) := by
  refine .of_step_eq (by simp) (by simp) ?_
  simp only [skipStep]
  rw [found_token _ hb, found_token_cons _ hc, found_skipStart hb]
  split
  · next h => exact absurd h (by simp)
  · next h => exact absurd (Option.some.inj h) hne
  all_goals simp_all

/-- An opening bracket is passed, and awaits a first value. -/
theorem passes_open (hb : Blank b) (bracket : Bracket) :
    Passes (opened, .value, b ++ bracket.opener :: cs) (bracket :: opened, .first, cs) := by
  refine .step (by simp) ?_ (by simp; omega)
  simp only [skipStep]
  rw [found_skipStart hb, skipStart, found_bind, skipToken]
  cases bracket <;>
  · rw [Bracket.opener, found_token_cons _ (by decide)]
    rfl

/-- A closing one is passed after a value, or at once. -/
theorem passes_close (hb : Blank b) (bracket : Bracket) (first : Bool) :
    Passes (bracket :: opened, if first then .first else .next, b ++ bracket.closer :: cs)
      (opened, .next, cs) := by
  refine .step (by simp) ?_ (by simp; omega)
  cases bracket <;> cases first <;>
  · simp only [skipStep, Bracket.closer, if_true, Bool.false_eq_true, if_false]
    rw [found_token _ hb, found_token_cons _ (by decide)]
    rfl

/-- A comma in an array awaits another value. -/
theorem passes_comma_array (hb : Blank b) :
    Passes (.array :: opened, .next, b ++ ',' :: cs) (.array :: opened, .value, cs) := by
  refine .step (by simp) ?_ (by simp; omega)
  simp only [skipStep]
  rw [found_token _ hb, found_token_cons _ (by decide)]
  rfl

/-- A key is passed over with its colon, and with the comma before it. -/
theorem passes_key {m : Member} (hb : Blank b) (hm : m.Formed) (first : Bool) :
    Passes (.object :: opened, if first then .first else .next,
        b ++ ((if first then m.text else ',' :: m.text) ++ cs))
      (.object :: opened, .value, m.toSlot.text ++ cs) := by
  refine .step (by simp) ?_ ?_
  · cases first with
    | true =>
        simp only [skipStep, if_true, text_append]
        rw [found_token _ hb, found_token _ hm.beforeKey, found_token_cons _ (by decide)]
        simp [found_skipKey hm]
    | false =>
        simp only [skipStep, Bool.false_eq_true, if_false, List.cons_append, text_append]
        rw [found_token _ hb, found_token_cons _ (by decide)]
        have hkey := @found_skipKey (m.toSlot.text ++ cs) m hm
        rw [skipKey] at hkey
        simp only [found_bind, found_advance, Option.bind_some]
        rw [skipKey, found_token _ hm.beforeKey, hkey]
        rfl
  · cases first <;>
    · simp only [Member.text, if_true, Bool.false_eq_true, if_false, List.length_append,
        List.length_cons]
      omega

/-! ### Values -/

/-- What one token reads to its end is passed. -/
theorem passed_of_token (hl : l ≠ [])
    (h : ∀ rest, Ends rest → found skipToken (l ++ rest) = some (none, rest)) : Passed l := by
  intro opened b rest hb hr
  have hpos : 0 < l.length := List.length_pos_iff.mpr hl
  refine .step (by simp) ?_ (by simp only [List.length_append]; omega)
  simp only [skipStep]
  rw [found_skipStart hb]
  simp [skipStart, h rest hr]

theorem passed_number (h : Numeral l) : Passed l := by
  obtain ⟨c, cs, hl, -⟩ := h.head
  refine passed_of_token (by simp [hl]) fun rest hr => ?_
  obtain ⟨sign_mem, hw, hf, hp⟩ := h
  have hskip := found_skipUnsigned hw hf hp hr
  obtain ⟨d, ds, rfl, hd⟩ := hw.head
  simp only [List.mem_cons, List.not_mem_nil, or_false] at sign_mem
  simp only [List.cons_append] at hskip
  rcases sign_mem with rfl | rfl
  · simp only [List.nil_append, List.cons_append, List.append_assoc]
    have := mem_digits hd
    simp only [decimalDigits, List.mem_cons, List.not_mem_nil, or_false] at this
    rcases this with rfl | rfl | rfl | rfl | rfl | rfl | rfl | rfl | rfl | rfl <;>
    · rw [skipToken, found_token_cons _ (by decide)]
      simp [show isDigit _ = true from hd, hskip]
  · simp only [List.nil_append, List.cons_append, List.append_assoc]
    rw [skipToken, found_token_cons _ (by decide)]
    simp [hskip]

theorem passed_text {s : List Char} (h : Spells s l) : Passed ('"' :: l) := by
  refine passed_of_token (by simp) fun rest hr => ?_
  rw [List.cons_append, skipToken, found_token_cons _ (by decide)]
  simp [found_skipTextTail h]

/-- A value in its slot, and the spaces after it, whatever comes first in them. -/
theorem Passed.slot {s : Slot} (h : Passed s.value) (hs : s.Formed) (hb : Blank b)
    (hr : Ends rest) :
    Passes (opened, .value, b ++ (s.text ++ rest)) (opened, .next, s.after ++ rest) := by
  have := h opened (b ++ s.before) (s.after ++ rest) (hb.append hs.before) (hr.append hs.after)
  simpa [Slot.text] using this

/-- What follows an entry ends it. -/
theorem ends_entries (ts : List (List Char)) (hp : Blank pad) (hc : c ∈ [',', ']', '}']) :
    Ends (entries false ts ++ (pad ++ c :: rest)) := by
  cases ts with
  | nil =>
      rw [entries, List.nil_append]
      exact (Ends.cons hc).append hp
  | cons t ts => exact .cons (by simp)

/-- The items up to the closing bracket. -/
theorem passes_items (hp : Blank pad) : ∀ (items : List Slot), (∀ s ∈ items, s.Formed) →
    (∀ s ∈ items, Value s.value) → (∀ s ∈ items, Passed s.value) → ∀ (first : Bool) b, Blank b →
      Passes (.array :: opened, if first then .first else .next,
          b ++ (entries first (items.map Slot.text) ++ (pad ++ ']' :: rest)))
        (opened, .next, rest) := by
  intro items
  induction items with
  | nil =>
      intro _ _ _ first b hb
      rw [List.map_nil, entries, List.nil_append, ← List.append_assoc]
      exact passes_close (hb.append hp) .array first
  | cons s items ih =>
      intro hf hv hp' first b hb
      have hs := hf s (by simp)
      have ih := ih (fun t h => hf t (by simp [h])) (fun t h => hv t (by simp [h]))
        (fun t h => hp' t (by simp [h])) false s.after hs.after
      have hends := @ends_entries pad rest ']' (items.map Slot.text) hp (by simp)
      have hpass : ∀ b, Blank b → Passes (.array :: opened, .value,
          b ++ (s.text ++ (entries false (items.map Slot.text) ++ (pad ++ ']' :: rest))))
          (opened, .next, rest) :=
        fun b hb => ((hp' s (by simp)).slot hs hb hends).trans ih
      rw [List.map_cons, entries]
      cases first with
      | false =>
          simp only [Bool.false_eq_true, if_false, List.cons_append, List.append_assoc]
          exact (passes_comma_array hb).trans (hpass [] .nil)
      | true =>
          obtain ⟨c, cs, hcs, hc, hne⟩ := (hv s (by simp)).head
          simp only [if_true, List.append_assoc]
          refine .trans ?_ (hpass b hb)
          simp only [Slot.text, hcs, List.append_assoc, List.cons_append]
          rw [← List.append_assoc]
          exact passes_first (hb.append hs.before) hc (by rintro rfl; simp at hne)

/-- The members up to the closing brace. -/
theorem passes_members (hp : Blank pad) : ∀ (ms : List Member), (∀ m ∈ ms, m.Formed) →
    (∀ m ∈ ms, Passed m.value) → ∀ (first : Bool) b, Blank b →
      Passes (.object :: opened, if first then .first else .next,
          b ++ (entries first (ms.map Member.text) ++ (pad ++ '}' :: rest)))
        (opened, .next, rest) := by
  intro ms
  induction ms with
  | nil =>
      intro _ _ first b hb
      rw [List.map_nil, entries, List.nil_append, ← List.append_assoc]
      exact passes_close (hb.append hp) .object first
  | cons m ms ih =>
      intro hf hv first b hb
      have hm := hf m (by simp)
      have ih := ih (fun n h => hf n (by simp [h])) (fun n h => hv n (by simp [h])) false
        m.after hm.after
      have hends := @ends_entries pad rest '}' (ms.map Member.text) hp (by simp)
      rw [List.map_cons, entries, List.append_assoc]
      refine (passes_key hb hm first).trans (.trans ?_ ih)
      exact (hv m (by simp)).slot hm.toFormed Blank.nil hends

/-- A value that is awaited is passed over, whatever is open around it. -/
theorem passes_value (h : Value l) : Passed l := by
  induction h with
  | nothing | yes | no =>
      refine passed_of_token (by simp) fun rest hr => ?_
      rw [List.cons_append, skipToken, found_token_cons _ (by decide)]
      rfl
  | number numeral => exact passed_number numeral
  | text spelled => exact passed_text spelled
  | array formed values blank ih =>
      intro opened b rest hb _
      have hitems := @passes_items _ rest opened blank _ formed values ih true [] .nil
      simpa [arrayText, Bracket.opener] using (passes_open hb .array).trans hitems
  | object formed values blank ih =>
      intro opened b rest hb _
      have hmembers := @passes_members _ rest opened blank _ formed ih true [] .nil
      simpa [objectText, Bracket.opener] using (passes_open hb .object).trans hmembers

/-- A value is passed over to its end. -/
theorem found_skipValue (h : Value l) (hb : Blank b) (hr : Ends rest) :
    found skipValue (b ++ (l ++ rest)) = some ((), rest) := by
  obtain ⟨budget, -, hs⟩ := passes_value h [] b rest hb hr (b ++ (l ++ rest)) (Nat.le_refl _)
  rw [skipValue, found_bind, found_get]
  exact hs.trans (by cases budget <;> rfl)

end Reader
end MediaHost.Json

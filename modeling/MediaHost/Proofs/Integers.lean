import MediaHost.Proofs.Gaps
import MediaHost.Proofs.Settings

/-!
# Proofs — Integers

Integer literals of any number of digits (`Literal`), and what a configuration makes of them.  A
literal that does not fit in 64 bits becomes a floating-point number or is malformed, and no
integer is made of either; so an integer field takes a literal if its value is in the field's
range, and takes that value (`Config.parse_integer_literal`).
-/

namespace MediaHost.Json

/-- A literal of an integer, of any number of digits.  Minus zero is none. -/
inductive Literal : Int → List Char → Prop
  | natural {ds : List Char} (whole : Whole ds) : Literal (Nat.ofDigitChars 10 ds 0) ds
  | negative {ds : List Char} (whole : Whole ds) (nonzero : ds ≠ ['0']) :
      Literal (-Nat.ofDigitChars 10 ds 0) ('-' :: ds)

section
variable {ds l : List Char} {v lo hi : Int}

/-- An integer literal is a number in the sense of the reader. -/
theorem Literal.numeral (h : Literal v l) : Numeral l := by
  cases h with
  | natural whole => simpa using @Numeral.of [] l [] [] (by simp) whole .none .none
  | @negative ds whole =>
      simpa using @Numeral.of ['-'] ds [] [] (by simp) whole .none .none

/-- Digits without a leading zero say zero only if they are the zero. -/
theorem Whole.ofDigitChars_pos (h : Whole ds) (hne : ds ≠ ['0']) :
    0 < Nat.ofDigitChars 10 ds 0 := by
  cases h with
  | zero => exact absurd rfl hne
  | @digits d ds first all =>
      have hd := mem_digits (all.2 d (by simp))
      have hpos : 0 < d.toNat - '0'.toNat := by
        revert first
        simp only [decimalDigits, List.mem_cons, List.not_mem_nil, or_false] at hd
        rcases hd with rfl | rfl | rfl | rfl | rfl | rfl | rfl | rfl | rfl | rfl <;> decide
      rw [Nat.ofDigitChars_cons]
      exact Nat.lt_of_lt_of_le (by omega) (Number.le_ofDigitChars _ ds)

namespace Number

/-- Digits whose value reaches the limit are no integer. -/
theorem worth_of_ge (positive : Bool) (h : limit ≤ Nat.ofDigitChars 10 ds 0) :
    (worth positive ds [] []).bind (Reader.integerOf lo hi) = none := by
  have hfit : fitting 0 ds < ds.length := by
    refine Nat.lt_of_le_of_ne (Nat.findGreatest_le _) fun heq => Nat.not_lt_of_le h ?_
    have hlt := @Nat.findGreatest_spec 0 (fun k => Nat.ofDigitChars 10 (ds.take k) 0 < limit)
      inferInstance ds.length (Nat.zero_le _) (Nat.zero_lt_succ _)
    rw [← fitting, heq, List.take_length] at hlt
    exact hlt
  have hdropped : ¬(([] : List Char) = [] ∧ ([] : List Char) = [] ∧
      ds.length - fitting 0 ds = 0) := by omega
  rw [worth, completed, if_neg hdropped, raised, if_neg (by decide)]
  cases scaled positive _ _ <;> rfl

end Number

namespace Reader

/-- The digits of a literal, with its sign if it has one, are read as the integer that they are
worth. -/
theorem reads_digits {positive : Bool} (hw : Whole ds) :
    (integer lo hi).outcome (if positive then ds else '-' :: ds) =
      (Number.worth positive ds [] []).bind (integerOf lo hi) := by
  have hsign (sign : List Char) (hs : sign ∈ [[], ['-']]) :
      (integer lo hi).outcome (sign ++ ds) =
        (Number.worth sign.isEmpty ds [] []).bind (integerOf lo hi) := by
    have hnumeral : Numeral (sign ++ ds) := by simpa using Numeral.of hs hw .none .none
    have hscans : Scans number (sign ++ ds) (Number.worth sign.isEmpty ds [] []) := by
      simpa using number_worth hs hw .none .none
    exact (reads_integer lo hi (reads_number hnumeral hscans)).outcome
  cases positive with
  | true => exact hsign [] (by simp)
  | false => exact hsign ['-'] (by simp)

/-- The reader takes a literal if its value is within the bounds, and makes of it what `cast`
makes of its value. -/
def Exact {β : Type} (r : Reader β) (lo hi : Int) (cast : Int → β) : Prop :=
  ∀ v l, Literal v l → r.outcome l = if lo ≤ v ∧ v ≤ hi then some (cast v) else none

/-- An integer literal is read as its value, if that is within the bounds. -/
theorem integer_exact (hlo : -0x8000000000000000 ≤ lo) (hhi : hi < Number.limit) :
    (integer lo hi).Exact lo hi id := by
  intro v l hl
  have hlimit : Number.limit = 0x10000000000000000 := rfl
  cases hl with
  | natural whole =>
      refine (@reads_digits l lo hi true whole).trans ?_
      rcases Nat.lt_or_ge (Nat.ofDigitChars 10 l 0) Number.limit with hlt | hge
      · rw [Number.worth_of_lt true hlt]
        simp [Number.ofInteger, integerOf]
      · rw [Number.worth_of_ge true hge, if_neg (by omega)]
  | @negative ds whole nonzero =>
      have hpos := whole.ofDigitChars_pos nonzero
      refine (@reads_digits ds lo hi false whole).trans ?_
      rcases Nat.lt_or_ge (Nat.ofDigitChars 10 ds 0) Number.limit with hlt | hge
      · rw [Number.worth_of_lt false hlt]
        by_cases hsmall : Nat.ofDigitChars 10 ds 0 ≤ 0x8000000000000000
        · simp [Number.ofInteger, hsmall, hpos.ne', integerOf]
        · have hout : ¬(lo ≤ -(Nat.ofDigitChars 10 ds 0 : Int) ∧
              -(Nat.ofDigitChars 10 ds 0 : Int) ≤ hi) := by omega
          rw [if_neg hout]
          simp [Number.ofInteger, hsmall, integerOf]
      · rw [Number.worth_of_ge false hge, if_neg (by omega)]

/-- What is done with an integer that was read does not change which ones are accepted. -/
theorem Exact.bind_pure {β γ : Type} {r : Reader β} {cast : Int → β} (h : r.Exact lo hi cast)
    (f : β → γ) : (r >>= fun b => pure (f b)).Exact lo hi fun v => f (cast v) := by
  intro v l hl
  rw [bind_pure_comp, outcome_map, h v l hl]
  split <;> rfl

/-- An optional integer accepts what the integer itself does, since no literal is `null`. -/
theorem Exact.optional {β : Type} {r : Reader β} {cast : Int → β} (h : r.Exact lo hi cast)
    (hlocal : r.Local) : (optional r).Exact lo hi fun v => some (cast v) := by
  intro v l hl
  have hhead : l.head? ≠ some 'n' := by
    obtain ⟨c, cs, rfl, hc⟩ := hl.numeral.head
    rintro ⟨⟩
    exact absurd hc (by decide)
  have hread := hlocal l (.number hl.numeral)
  rw [(optional_of_ne (.number hl.numeral) hhead hread).outcome, h v l hl]
  split <;> rfl

theorem uint16_exact : uint16.Exact 0 (2 ^ 16 - 1) fun v => UInt16.ofNat v.toNat :=
  (integer_exact (by decide) (by decide)).bind_pure _

theorem uint32_exact : uint32.Exact 0 (2 ^ 32 - 1) fun v => UInt32.ofNat v.toNat :=
  (integer_exact (by decide) (by decide)).bind_pure _

theorem uint64_exact : uint64.Exact 0 (2 ^ 64 - 1) fun v => UInt64.ofNat v.toNat :=
  (integer_exact (by decide) (by decide)).bind_pure _

theorem int32_exact : int32.Exact (-2 ^ 31) (2 ^ 31 - 1) Int32.ofInt :=
  (integer_exact (by decide) (by decide)).bind_pure _

end Reader
end

end MediaHost.Json

namespace MediaHost
open Json Reader

/-! ### Fields that are integers -/

namespace Playback

theorem settable_videoIndex :
    Settable fields "video_index" int32 fun v p => { p with videoIndex := v } :=
  suits.settable (by simp [fields]) (by simp [fields, Field.Apart.of])

theorem settable_audioIndex :
    Settable fields "audio_index" int32 fun v p => { p with audioIndex := v } :=
  suits.settable (by simp [fields]) (by simp [fields, Field.Apart.of])

theorem settable_initialWidth :
    Settable fields "initial_width" uint32 fun v p => { p with initialWidth := v } :=
  suits.settable (by simp [fields]) (by simp [fields, Field.Apart.of])

theorem settable_initialHeight :
    Settable fields "initial_height" uint32 fun v p => { p with initialHeight := v } :=
  suits.settable (by simp [fields]) (by simp [fields, Field.Apart.of])

end Playback

namespace Synchronization

theorem settable_clockPort :
    Settable fields "master_clock_port" uint16 fun v s => { s with clockPort := v } :=
  suits.settable (by simp [fields]) (by simp [fields, Field.Apart.of])

theorem settable_baseTime :
    Settable fields "base_time" uint64 fun v s => { s with baseTime := v } :=
  suits.settable (by simp [fields]) (by simp [fields, Field.Apart.of])

end Synchronization

namespace Teardown

theorem settable_pollInterval :
    Settable fields "eos_poll_interval_ms" uint64 fun v t => { t with pollInterval := v } :=
  suits.settable (by simp [fields]) (by simp [fields, Field.Apart.of])

theorem settable_timeout :
    Settable fields "eos_timeout_ms" (optional uint64) fun v t => { t with timeout := v } :=
  suits.settable (by simp [fields]) (by simp [fields, Field.Apart.of])

end Teardown

namespace Config

/-- A section of a configuration. -/
structure Section (α : Type) where
  key : String
  get : Config → α
  put : α → Config → Config

namespace Section

def playback : Section Playback :=
  ⟨"playback", Config.playback, fun p c => { c with playback := p }⟩

def synchronization : Section Synchronization :=
  ⟨"synchronization", Config.synchronization, fun s c => { c with synchronization := s }⟩

def teardown : Section Teardown :=
  ⟨"teardown", Config.teardown, fun t c => { c with teardown := t }⟩

/-- The section is read as a record of these fields, and kept apart from the other sections. -/
structure Kept {α : Type} (part : Section α) (parts : List (Json.Field α)) (start : α) : Prop where
  keys : ∀ keys, (part.key, keys) ∈ sections → keys = parts.map Json.Field.key
  settable : Settable fields part.key (record parts start) part.put
  get_put : ∀ a c, part.get (part.put a c) = a
  put_put : ∀ a b c, part.put b (part.put a c) = part.put b c

/-- Each of the sections that hold integers stays apart from the others. -/
theorem kept_playback : playback.Kept Playback.fields {} where
  keys := by simp [playback, sections, Playback.cells, Playback.fields]
  settable := suits.settable (by simp [fields, playback])
    (by simp [fields, playback, Field.Apart.of])
  get_put _ _ := rfl
  put_put _ _ _ := rfl

theorem kept_synchronization : synchronization.Kept Synchronization.fields {} where
  keys := by simp [synchronization, sections, Synchronization.cells, Synchronization.fields]
  settable := suits.settable (by simp [fields, synchronization])
    (by simp [fields, synchronization, Field.Apart.of])
  get_put _ _ := rfl
  put_put _ _ _ := rfl

theorem kept_teardown : teardown.Kept Teardown.fields {} where
  keys := by simp [teardown, sections, Teardown.cells, Teardown.fields]
  settable := suits.settable (by simp [fields, teardown])
    (by simp [fields, teardown, Field.Apart.of])
  get_put _ _ := rfl
  put_put _ _ _ := rfl

end Section

/-- A field of a configuration that is an integer from `lo` to `hi`. -/
structure IntegerField where
  /-- The key of the section it is in. -/
  part : String
  key : String
  lo : Int
  hi : Int
  get : Config → Option Int
  set : Int → Config → Config

/-- A field of a section. -/
def Section.integer {α : Type} (part : Section α) (key : String) (lo hi : Int)
    (get : α → Option Int) (set : Int → α → α) : IntegerField where
  part := part.key
  key := key
  lo := lo
  hi := hi
  get c := get (part.get c)
  set v c := part.put (set v (part.get c)) c

/-- All fields that are integers. -/
def integers : List IntegerField := [
  Section.playback.integer "video_index" (-2 ^ 31) (2 ^ 31 - 1) (fun p => some p.videoIndex.toInt)
    fun v p => { p with videoIndex := Int32.ofInt v },
  Section.playback.integer "audio_index" (-2 ^ 31) (2 ^ 31 - 1) (fun p => some p.audioIndex.toInt)
    fun v p => { p with audioIndex := Int32.ofInt v },
  Section.playback.integer "initial_width" 0 (2 ^ 32 - 1) (fun p => some p.initialWidth.toNat)
    fun v p => { p with initialWidth := UInt32.ofNat v.toNat },
  Section.playback.integer "initial_height" 0 (2 ^ 32 - 1) (fun p => some p.initialHeight.toNat)
    fun v p => { p with initialHeight := UInt32.ofNat v.toNat },
  Section.synchronization.integer "master_clock_port" 0 (2 ^ 16 - 1)
    (fun s => some s.clockPort.toNat) fun v s => { s with clockPort := UInt16.ofNat v.toNat },
  Section.synchronization.integer "base_time" 0 (2 ^ 64 - 1) (fun s => some s.baseTime.toNat)
    fun v s => { s with baseTime := UInt64.ofNat v.toNat },
  Section.teardown.integer "eos_poll_interval_ms" 0 (2 ^ 64 - 1)
    (fun t => some t.pollInterval.toNat)
    fun v t => { t with pollInterval := UInt64.ofNat v.toNat },
  Section.teardown.integer "eos_timeout_ms" 0 (2 ^ 64 - 1) (fun t => t.timeout.map fun n => n.toNat)
    fun v t => { t with timeout := some (UInt64.ofNat v.toNat) }]

namespace IntegerField

/-- A configuration's text with a gap for the field's value.  The section of the field, like the
whole, may be written as an object or as an array. -/
def Gap (field : IntegerField) (gap : List Char → List Char) : Prop :=
  ∃ keys inner outer, (field.part, keys) ∈ sections ∧
    Gapped (sections.map Prod.fst) field.part outer ∧ Gapped keys field.key inner ∧
    gap = outer ∘ inner

/-- A literal in the gap is taken if its value is in the field's range, and then the value is put
into what the rest of the text says. -/
def Takes (field : IntegerField) : Prop :=
  ∀ gap, field.Gap gap → ∃ rest : Option Config, ∀ v l, Literal v l →
    (record fields {}).Reads (gap l)
      (if field.lo ≤ v ∧ v ≤ field.hi then rest.map (field.set v) else none)

end IntegerField

/-- An integer of a section takes exactly the literals in its range if its field does, since the
members beside it are read as before. -/
theorem Section.Kept.takes {α β : Type} {part : Section α} {parts : List (Json.Field α)}
    {start : α} {key : String} {reader : Reader β} {store : β → α → α} {lo hi : Int}
    {cast : Int → β} {get : α → Option Int} (h : part.Kept parts start)
    (hfield : Settable parts key reader store) (hexact : reader.Exact lo hi cast) :
    (part.integer key lo hi get fun v => store (cast v)).Takes := by
  rintro gap ⟨keys, inner, outer, hmem, houter, hinner, rfl⟩
  obtain rfl := h.keys keys hmem
  have hwhole := @Settable.fills _ _ _ _ _ _ _ {} h.settable houter
  obtain ⟨rest, hrest⟩ := hwhole.comp (hfield.fills hinner) h.get_put h.put_put
  refine ⟨rest, fun v l hl => ?_⟩
  obtain ⟨hvalue, hread⟩ := hrest l (.number hl.numeral)
  have hreads := @record_local Config fields {} suits.alone _ hvalue
  have htaken (f : β → Option Config) :
      (if lo ≤ v ∧ v ≤ hi then some (cast v) else none).bind f =
        if lo ≤ v ∧ v ≤ hi then f (cast v) else none := by
    split <;> rfl
  rw [hread, hexact v l hl, htaken] at hreads
  exact hreads

/-- Every integer of a configuration takes exactly the literals in its range. -/
theorem integers_take : ∀ field ∈ integers, field.Takes := by
  simp only [integers, List.forall_mem_cons, List.not_mem_nil, false_implies, implies_true,
    and_true]
  exact ⟨Section.kept_playback.takes Playback.settable_videoIndex int32_exact,
    Section.kept_playback.takes Playback.settable_audioIndex int32_exact,
    Section.kept_playback.takes Playback.settable_initialWidth uint32_exact,
    Section.kept_playback.takes Playback.settable_initialHeight uint32_exact,
    Section.kept_synchronization.takes Synchronization.settable_clockPort uint16_exact,
    Section.kept_synchronization.takes Synchronization.settable_baseTime uint64_exact,
    Section.kept_teardown.takes Teardown.settable_pollInterval uint64_exact,
    Section.kept_teardown.takes Teardown.settable_timeout (uint64_exact.optional uint64_local)⟩

/-- What was set is there, and the last of two settings counts. -/
theorem integers_set : ∀ field ∈ integers,
    (∀ v w c, field.set v (field.set w c) = field.set v c) ∧
      ∀ v c, field.lo ≤ v → v ≤ field.hi → field.get (field.set v c) = some v := by
  have hint32 (v : Int) (hlo : -2 ^ 31 ≤ v) (hhi : v ≤ 2 ^ 31 - 1) : (Int32.ofInt v).toInt = v :=
    Int32.toInt_ofInt_of_le hlo (by omega)
  have huint16 (v : Int) (hlo : 0 ≤ v) (hhi : v ≤ 2 ^ 16 - 1) :
      ((UInt16.ofNat v.toNat).toNat : Int) = v := by
    rw [UInt16.toNat_ofNat']
    omega
  have huint32 (v : Int) (hlo : 0 ≤ v) (hhi : v ≤ 2 ^ 32 - 1) :
      ((UInt32.ofNat v.toNat).toNat : Int) = v := by
    rw [UInt32.toNat_ofNat']
    omega
  have huint64 (v : Int) (hlo : 0 ≤ v) (hhi : v ≤ 2 ^ 64 - 1) :
      ((UInt64.ofNat v.toNat).toNat : Int) = v := by
    rw [UInt64.toNat_ofNat']
    omega
  simp only [integers, List.forall_mem_cons, List.not_mem_nil, false_implies, implies_true,
    and_true]
  exact ⟨⟨fun _ _ _ => rfl, fun v _ h h' => congrArg some (hint32 v h h')⟩,
    ⟨fun _ _ _ => rfl, fun v _ h h' => congrArg some (hint32 v h h')⟩,
    ⟨fun _ _ _ => rfl, fun v _ h h' => congrArg some (huint32 v h h')⟩,
    ⟨fun _ _ _ => rfl, fun v _ h h' => congrArg some (huint32 v h h')⟩,
    ⟨fun _ _ _ => rfl, fun v _ h h' => congrArg some (huint16 v h h')⟩,
    ⟨fun _ _ _ => rfl, fun v _ h h' => congrArg some (huint64 v h h')⟩,
    ⟨fun _ _ _ => rfl, fun v _ h h' => congrArg some (huint64 v h h')⟩,
    ⟨fun _ _ _ => rfl, fun v _ h h' => congrArg some (huint64 v h h')⟩⟩

/-- Zero is in the range of each. -/
theorem integers_zero : ∀ field ∈ integers, field.lo ≤ 0 ∧ 0 ≤ field.hi := by
  simp [integers, Section.integer]

/-- A configuration whose text has an integer literal for an integer field, wherever in the text
and whatever stands around it, is accepted if and only if it is with a zero there and the value of
the literal is in the field's range; and then the field is that value, and all else is as with
the zero.  With a zero any way of writing a configuration is accepted. -/
theorem parse_integer_literal {field : IntegerField} (hfield : field ∈ integers)
    {gap : List Char → List Char} (hgap : field.Gap gap) {b b' : List Char} (hb : Blank b)
    (hb' : Blank b') {v : Int} {l : List Char} (hl : Literal v l) :
    let text (l : List Char) := String.ofList (b ++ (gap l ++ b'))
    (∀ c, parse (text ['0']) = .ok c →
      ((∃ d, parse (text l) = .ok d) ↔ field.lo ≤ v ∧ v ≤ field.hi) ∧
      ∀ d, parse (text l) = .ok d → d = field.set v c ∧ field.get d = some v) ∧
    (∀ fault, parse (text ['0']) = .error fault → ∀ d, parse (text l) ≠ .ok d) ∧
    ∀ c, Writes cells {} c (gap ['0']) → parse (text ['0']) = .ok c := by
  intro text
  obtain ⟨hset, hget⟩ := integers_set field hfield
  obtain ⟨rest, hrest⟩ := integers_take field hfield gap hgap
  have hparse := run_reads (hrest v l hl) hb hb'
  have hzero := run_reads (hrest 0 ['0'] (.natural .zero)) hb hb'
  rw [if_pos (integers_zero field hfield)] at hzero
  rw [← parse] at hparse hzero
  have hok (l : List Char) (d : Config) :
      parse (text l) = .ok d ↔ (parse (text l)).toOption = some d := by
    cases parse (text l) <;> simp [Except.toOption]
  refine ⟨fun c hc => ?_, fun fault hfault d hd => ?_, fun c hc => ?_⟩
  · obtain ⟨c, rfl, rfl⟩ := Option.map_eq_some_iff.mp (hzero.symm.trans ((hok _ _).mp hc))
    by_cases hin : field.lo ≤ v ∧ v ≤ field.hi
    · rw [if_pos hin, Option.map_some] at hparse
      refine ⟨⟨fun _ => hin, fun _ => ⟨_, (hok l _).mpr hparse⟩⟩, fun d hd => ?_⟩
      obtain rfl := Option.some.inj (hparse.symm.trans ((hok l d).mp hd))
      exact ⟨(hset v 0 c).symm, hget v c hin.1 hin.2⟩
    · rw [if_neg hin] at hparse
      have hrefused (d : Config) : parse (text l) ≠ .ok d := fun hd =>
        Option.some_ne_none d (((hok l d).mp hd).symm.trans hparse)
      exact ⟨⟨fun hd => absurd hd (not_exists.mpr hrefused), fun h => absurd h hin⟩,
        fun d hd => absurd hd (hrefused d)⟩
  · have hnone : rest = none := by
      rw [hfault] at hzero
      exact Option.map_eq_none_iff.mp hzero.symm
    rw [hnone, Option.map_none, ite_self] at hparse
    exact Option.some_ne_none d (((hok l d).mp hd).symm.trans hparse)
  · exact (hok _ c).mpr (run_reads (suits.understands c _ hc).2 hb hb')

/-- The longest timeout of 64 bits, in a section that is an array, and one more. -/
theorem timeout_limit :
    parse "\x7b\"teardown\":[7,18446744073709551615]\x7d" =
      .ok { teardown := { pollInterval := 7, timeout := some 0xffffffffffffffff } } ∧
    ∀ d, parse "\x7b\"teardown\":[7,18446744073709551616]\x7d" ≠ .ok d := by
  have name : Spells "teardown".toList ("teardown".toList ++ ['"']) := .plainly (by simp)
  have outer : Gapped (sections.map Prod.fst) "teardown" fun l => objectText
      ([] ++ Member.hold ⟨⟨[], [], []⟩, [], "teardown", "teardown".toList ++ ['"'], []⟩ l :: [])
        [] := by
    refine .member ?_ (by simp) .nil rfl
    simpa using ⟨⟨.nil, .nil⟩, .nil, name, .nil⟩
  have seven : Value ['7'] :=
    .number (@Numeral.of [] ['7'] [] [] (by simp)
      (.digits (by decide) ⟨by simp, by simp [isDigit, digit?]⟩) .none .none)
  have inner : Gapped (Teardown.cells.map Cell.key) "eos_timeout_ms" fun l => arrayText
      ([⟨[], ['7'], []⟩] ++ Slot.hold ⟨[], [], []⟩ l :: []) [] :=
    .item (by simpa using ⟨⟨.nil, .nil⟩, .nil, .nil⟩) (by simpa using seven) .nil rfl
  let digits (last : Char) : List Char := ['1', '8', '4', '4', '6', '7', '4', '4', '0', '7', '3',
    '7', '0', '9', '5', '5', '1', '6', '1', last]
  have whole (last : Char) (hlast : isDigit last) : Whole (digits last) :=
    .digits (by decide) ⟨by simp, by simpa [isDigit, digit?] using hlast⟩
  have zero : parse "\x7b\"teardown\":[7,0]\x7d" =
      .ok { teardown := { pollInterval := 7, timeout := some 0 } } := by
    decide +kernel
  have limit (v : Int) (l : List Char) (hl : Literal v l) :=
    (@parse_integer_literal integers[7] (List.getElem_mem _) _
      ⟨_, _, _, by simp [sections, integers, Section.integer, Section.teardown], outer, inner, rfl⟩
      [] [] .nil .nil v l hl).1 _ zero
  obtain ⟨accepted, value⟩ := limit _ _ (.natural (whole '5' (by decide)))
  obtain ⟨refused, -⟩ := limit _ _ (.natural (whole '6' (by decide)))
  constructor
  · obtain ⟨d, hd⟩ := accepted.mpr (by decide)
    rw [(value d hd).1] at hd
    exact hd
  · intro d hd
    exact absurd (refused.mp ⟨d, hd⟩) (by decide)

end Config
end MediaHost

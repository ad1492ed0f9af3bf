import MediaHost.Config.Reader
import MediaHost.Proofs.Writing

/-!
# Proofs — Settings

Configurations as they may be written.  Each value has its ways of being written, a section is
written as a record of its values, and a configuration as a record of its sections; all of them
are read as the configuration, and an object that has a known key twice is refused
(`Config.parse_written`).
-/

namespace MediaHost.Json

/-! ### Ways of writing values -/

/-- A text in quotes. -/
def Quoted (s : String) (l : List Char) : Prop := ∃ q, Spells s.toList q ∧ l = '"' :: q

/-- The word for a truth value. -/
def Word (b : Bool) (l : List Char) : Prop := l = (toString b).toList

/-- The digits of an integer, after a minus sign if it is negative. -/
def Decimal (n : Int) (l : List Char) : Prop := l = (toString n).toList

/-- A number that stands for `x`, or for what is rounded to `x`. -/
def Rounded {F : Format} (convert : Double → Binary F) (x : Binary F) (l : List Char) : Prop :=
  ∃ n, Stands n l ∧ Reader.rounded convert n = x

/-- The word for nothing, or a value. -/
def Maybe {β : Type} (writes : β → List Char → Prop) : Option β → List Char → Prop
  | none, l => l = ['n', 'u', 'l', 'l']
  | some x, l => writes x l

/-- A name in quotes, or as the one key of an object that has nothing as its value. -/
inductive Named (name : String) : List Char → Prop
  | text {q : List Char} (spelled : Spells name.toList q) : Named name ('"' :: q)
  | object {m : Member} {pad : List Char} (formed : m.Formed) (named : m.name = name)
      (nothing : m.value = ['n', 'u', 'l', 'l']) (blank : Blank pad) :
      Named name (objectText [m] pad)

namespace Reader

theorem text_understands : text.Understands Quoted := by
  rintro s l ⟨q, hq, rfl⟩
  exact ⟨.text hq, reads_text hq⟩

theorem boolean_understands : boolean.Understands Word := by
  rintro (_ | _) l rfl
  · exact ⟨.no, reads_token .no fun _ _ => rfl⟩
  · exact ⟨.yes, reads_token .yes fun _ _ => rfl⟩

/-- An optional value is understood if no way of writing it can be taken for `null`. -/
theorem optional_understands {β : Type} {r : Reader β} {writes : β → List Char → Prop}
    (h : r.Understands writes) (hne : ∀ x l, writes x l → l.head? ≠ some 'n') :
    (optional r).Understands (Maybe writes) := by
  rintro (_ | x) l hw
  · obtain rfl : l = ['n', 'u', 'l', 'l'] := hw
    exact ⟨.nothing, reads_token .nothing fun _ _ => rfl⟩
  · obtain ⟨hl, hr⟩ := h x l hw
    exact ⟨hl, optional_of_ne hl (hne x l hw) hr⟩

/-- A choice is understood by its name. -/
theorem choice_understands {β : Type} {choices : List (String × β)} {name : β → String}
    (hname : ∀ x, choices.lookup (name x) = some x) :
    (choice choices).Understands fun x => Named (name x) := by
  intro x l hw
  cases hw with
  | text spelled => exact ⟨.text spelled, hname x ▸ reads_choice_text choices spelled⟩
  | @object m pad formed named nothing blank =>
      have formed : ∀ n ∈ [m], n.Formed := by simpa using formed
      have values : ∀ n ∈ [m], Value n.value := by simpa [nothing] using Value.nothing
      refine ⟨.object formed values blank, ?_⟩
      have hread := reads_choice_object choices formed values blank
      have hnothing : Reader.nothing.outcome m.value = some () := by
        rw [nothing]
        rfl
      rw [named, hname x, hnothing] at hread
      exact hread

/-- A double is rounded from the number that is written. -/
theorem double_understands : double.Understands (Rounded id) := by
  rintro x l ⟨n, hn, rfl⟩
  exact ⟨.number hn.numeral, reads_double (reads_number hn.numeral hn.scans)⟩

theorem single_understands : single.Understands (Rounded Binary.convert) := by
  rintro x l ⟨n, hn, rfl⟩
  exact ⟨.number hn.numeral, reads_single (reads_number hn.numeral hn.scans)⟩

/-! ### Integers -/

/-- An integer within the bounds is read as itself. -/
theorem reads_decimal {lo hi n : Int} {l : List Char} (hlo : -0x8000000000000000 ≤ lo)
    (hhi : hi < Number.limit) (hn : lo ≤ n) (hn' : n ≤ hi) (hl : Decimal n l) :
    Value l ∧ (integer lo hi).Reads l (some n) := by
  obtain rfl : l = (toString n).toList := hl
  cases n with
  | ofNat n =>
      rw [Int.ofNat_eq_natCast] at hn hn'
      have hd : (toString (Int.ofNat n)).toList = Nat.toDigits 10 n := Nat.toList_repr
      have hstands : Stands (.natural n) (Nat.toDigits 10 n) := stands_natural (by omega)
      have hread := reads_integer lo hi (reads_number hstands.numeral hstands.scans)
      rw [hd]
      refine ⟨.number hstands.numeral, ?_⟩
      simpa [integerOf, hn, hn'] using hread
  | negSucc n =>
      rw [Int.negSucc_eq] at hn hn'
      have hd : (toString (Int.negSucc n)).toList = '-' :: Nat.toDigits 10 (n + 1) := by
        refine (String.toList_append ..).trans ?_
        rw [Nat.toList_repr]
        rfl
      have hstands : Stands (.negative (n + 1)) ('-' :: Nat.toDigits 10 (n + 1)) :=
        stands_negative (by omega) (by omega)
      have hread := reads_integer lo hi (reads_number hstands.numeral hstands.scans)
      have hof : integerOf lo hi (.negative (n + 1)) = some (Int.negSucc n) :=
        if_pos (by simp only [Bool.and_eq_true, decide_eq_true_eq]; omega)
      rw [Option.bind_some, hof] at hread
      rw [hd]
      exact ⟨.number hstands.numeral, hread⟩

theorem uint16_understands : uint16.Understands fun x => Decimal x.toNat := by
  intro x l hl
  have hx := x.toNat_lt
  obtain ⟨hv, hr⟩ := reads_decimal (by decide : (-0x8000000000000000 : Int) ≤ 0)
    (by decide : (UInt16.size - 1 : Int) < Number.limit) (by omega) (by simp [UInt16.size]; omega)
    hl
  have hr := hr.bind_pure fun n => UInt16.ofNat n.toNat
  rw [Option.map_some, Int.toNat_natCast, UInt16.ofNat_toNat] at hr
  exact ⟨hv, hr⟩

theorem uint32_understands : uint32.Understands fun x => Decimal x.toNat := by
  intro x l hl
  have hx := x.toNat_lt
  obtain ⟨hv, hr⟩ := reads_decimal (by decide : (-0x8000000000000000 : Int) ≤ 0)
    (by decide : (UInt32.size - 1 : Int) < Number.limit) (by omega) (by simp [UInt32.size]; omega)
    hl
  have hr := hr.bind_pure fun n => UInt32.ofNat n.toNat
  rw [Option.map_some, Int.toNat_natCast, UInt32.ofNat_toNat] at hr
  exact ⟨hv, hr⟩

/-- An unsigned number is understood by its digits. -/
theorem uint64_understands : uint64.Understands fun x => Decimal x.toNat := by
  intro x l hl
  have hx := x.toNat_lt
  obtain ⟨hv, hr⟩ := reads_decimal (by decide : (-0x8000000000000000 : Int) ≤ 0)
    (by decide : (UInt64.size - 1 : Int) < Number.limit) (by omega) (by simp [UInt64.size]; omega)
    hl
  have hr := hr.bind_pure fun n => UInt64.ofNat n.toNat
  rw [Option.map_some, Int.toNat_natCast, UInt64.ofNat_toNat] at hr
  exact ⟨hv, hr⟩

/-- A signed one by its digits after a minus, if it is negative. -/
theorem int32_understands : int32.Understands fun x => Decimal x.toInt := by
  intro x l hl
  obtain ⟨hv, hr⟩ := reads_decimal (by decide : -0x8000000000000000 ≤ Int32.minValue.toInt)
    (by decide : Int32.maxValue.toInt < Number.limit) x.minValue_le_toInt x.toInt_le hl
  have hr := hr.bind_pure Int32.ofInt
  rw [Option.map_some, Int32.ofInt_toInt] at hr
  exact ⟨hv, hr⟩

end Reader
end MediaHost.Json

namespace MediaHost
open Json Reader

/-! ### Sections -/

theorem quoted_head (s : String) (l : List Char) (h : Quoted s l) : l.head? ≠ some 'n' := by
  obtain ⟨q, -, rfl⟩ := h
  simp

theorem decimal_head (n : UInt64) (l : List Char) (h : Decimal n.toNat l) :
    l.head? ≠ some 'n' := by
  obtain rfl : l = Nat.toDigits 10 n.toNat := Eq.trans h Nat.toList_repr
  intro hn
  exact absurd ((digits_toDigits _).2 'n' (List.mem_of_mem_head? hn)) (by decide)

namespace Playback

/-- What is written of a playback section. -/
def cells : List (Cell Playback) := [
  ⟨"name", fun p => p.name, Maybe Quoted⟩,
  ⟨"uri", fun p => p.uri, Quoted⟩,
  ⟨"video_index", fun p => p.videoIndex, fun n => Decimal n.toInt⟩,
  ⟨"audio_index", fun p => p.audioIndex, fun n => Decimal n.toInt⟩,
  ⟨"looping", fun p => p.looping, Word⟩,
  ⟨"volume", fun p => p.volume, Rounded id⟩,
  ⟨"adaptive_bitrate_limit", fun p => p.bitrateLimit, Rounded Binary.convert⟩,
  ⟨"initial_width", fun p => p.initialWidth, fun n => Decimal n.toNat⟩,
  ⟨"initial_height", fun p => p.initialHeight, fun n => Decimal n.toNat⟩]

theorem suits : Suits fields cells where
  pairs := .cons (.of (optional_understands text_understands quoted_head) (fun _ _ => rfl)
      (by simp [cells])) <|
    .cons (.of text_understands (fun _ _ => rfl) (by simp [cells])) <|
    .cons (.of int32_understands (fun _ _ => rfl) (by simp [cells])) <|
    .cons (.of int32_understands (fun _ _ => rfl) (by simp [cells])) <|
    .cons (.of boolean_understands (fun _ _ => rfl) (by simp [cells])) <|
    .cons (.of double_understands (fun _ _ => rfl) (by simp [cells])) <|
    .cons (.of single_understands (fun _ _ => rfl) (by simp [cells])) <|
    .cons (.of uint32_understands (fun _ _ => rfl) (by simp [cells])) <|
    .cons (.of uint32_understands (fun _ _ => rfl) (by simp [cells])) .nil
  alone := by
    simp only [fields, List.forall_mem_cons, List.not_mem_nil, false_implies, implies_true,
      and_true]
    exact ⟨text_local.optional.map _, text_local.map _, int32_local.map _, int32_local.map _,
      boolean_local.map _, double_local.map _, single_local.map _, uint32_local.map _,
      uint32_local.map _⟩
  distinct := by decide
  complete a b h := by
    simp only [cells, List.forall_mem_cons] at h
    obtain ⟨h₁, h₂, h₃, h₄, h₅, h₆, h₇, h₈, h₉, -⟩ := h
    cases a
    cases b
    simp_all

end Playback

namespace Crop

/-- What is written of a cropping section. -/
def cells : List (Cell Crop) := [
  ⟨"left", fun c => c.left, Rounded Binary.convert⟩,
  ⟨"top", fun c => c.top, Rounded Binary.convert⟩,
  ⟨"right", fun c => c.right, Rounded Binary.convert⟩,
  ⟨"bottom", fun c => c.bottom, Rounded Binary.convert⟩]

theorem suits : Suits fields cells where
  pairs := .cons (.of single_understands (fun _ _ => rfl) (by simp [cells])) <|
    .cons (.of single_understands (fun _ _ => rfl) (by simp [cells])) <|
    .cons (.of single_understands (fun _ _ => rfl) (by simp [cells])) <|
    .cons (.of single_understands (fun _ _ => rfl) (by simp [cells])) .nil
  alone := by
    simp only [fields, List.forall_mem_cons, List.not_mem_nil, false_implies, implies_true,
      and_true]
    exact ⟨single_local.map _, single_local.map _, single_local.map _, single_local.map _⟩
  distinct := by decide
  complete a b h := by
    simp only [cells, List.forall_mem_cons] at h
    obtain ⟨h₁, h₂, h₃, h₄, -⟩ := h
    cases a
    cases b
    simp_all

end Crop

namespace Synchronization

/-- What is written of a synchronization section. -/
def cells : List (Cell Synchronization) := [
  ⟨"enabled", fun s => s.enabled, Word⟩,
  ⟨"master_clock_address", fun s => s.clockAddress, Quoted⟩,
  ⟨"master_clock_port", fun s => s.clockPort, fun n => Decimal n.toNat⟩,
  ⟨"clock_mode", fun s => s.clockMode, fun mode => Named mode.name⟩,
  ⟨"base_time", fun s => s.baseTime, fun n => Decimal n.toNat⟩]

theorem lookup_mode (mode : ClockMode) :
    (ClockMode.all.map fun m => (m.name, m)).lookup mode.name = some mode := by
  cases mode <;> decide

theorem suits : Suits fields cells where
  pairs := .cons (.of boolean_understands (fun _ _ => rfl) (by simp [cells])) <|
    .cons (.of text_understands (fun _ _ => rfl) (by simp [cells])) <|
    .cons (.of uint16_understands (fun _ _ => rfl) (by simp [cells])) <|
    .cons (.of (choice_understands lookup_mode) (fun _ _ => rfl) (by simp [cells])) <|
    .cons (.of uint64_understands (fun _ _ => rfl) (by simp [cells])) .nil
  alone := by
    simp only [fields, List.forall_mem_cons, List.not_mem_nil, false_implies, implies_true,
      and_true]
    exact ⟨boolean_local.map _, text_local.map _, uint16_local.map _, (choice_local _).map _,
      uint64_local.map _⟩
  distinct := by decide
  complete a b h := by
    simp only [cells, List.forall_mem_cons] at h
    obtain ⟨h₁, h₂, h₃, h₄, h₅, -⟩ := h
    cases a
    cases b
    simp_all

end Synchronization

namespace Diagnostics

/-- What is written of a debug section. -/
def cells : List (Cell Diagnostics) := [
  ⟨"enabled", fun d => d.enabled, Word⟩,
  ⟨"engine_debug", fun d => d.levels, Quoted⟩]

theorem suits : Suits fields cells where
  pairs := .cons (.of boolean_understands (fun _ _ => rfl) (by simp [cells])) <|
    .cons (.of text_understands (fun _ _ => rfl) (by simp [cells])) .nil
  alone := by
    simp only [fields, List.forall_mem_cons, List.not_mem_nil, false_implies, implies_true,
      and_true]
    exact ⟨boolean_local.map _, text_local.map _⟩
  distinct := by decide
  complete a b h := by
    simp only [cells, List.forall_mem_cons] at h
    obtain ⟨h₁, h₂, -⟩ := h
    cases a
    cases b
    simp_all

end Diagnostics

namespace Teardown

/-- What is written of a teardown section. -/
def cells : List (Cell Teardown) := [
  ⟨"eos_poll_interval_ms", fun t => t.pollInterval, fun n => Decimal n.toNat⟩,
  ⟨"eos_timeout_ms", fun t => t.timeout, Maybe fun n => Decimal n.toNat⟩]

theorem suits : Suits fields cells where
  pairs := .cons (.of uint64_understands (fun _ _ => rfl) (by simp [cells])) <|
    .cons (.of (optional_understands uint64_understands decimal_head) (fun _ _ => rfl)
      (by simp [cells])) .nil
  alone := by
    simp only [fields, List.forall_mem_cons, List.not_mem_nil, false_implies, implies_true,
      and_true]
    exact ⟨uint64_local.map _, uint64_local.optional.map _⟩
  distinct := by decide
  complete a b h := by
    simp only [cells, List.forall_mem_cons] at h
    obtain ⟨h₁, h₂, -⟩ := h
    cases a
    cases b
    simp_all

end Teardown

/-! ### The whole configuration -/

namespace Config

/-- What is written of a configuration: its sections. -/
def cells : List (Cell Config) := [
  ⟨"playback", fun c => c.playback, Writes Playback.cells {}⟩,
  ⟨"cropping", fun c => c.crop, Writes Crop.cells {}⟩,
  ⟨"synchronization", fun c => c.synchronization, Writes Synchronization.cells {}⟩,
  ⟨"debug", fun c => c.diagnostics, Writes Diagnostics.cells {}⟩,
  ⟨"teardown", fun c => c.teardown, Writes Teardown.cells {}⟩]

theorem suits : Suits fields cells where
  pairs := .cons (.of Playback.suits.understands (fun _ _ => rfl) (by simp [cells])) <|
    .cons (.of Crop.suits.understands (fun _ _ => rfl) (by simp [cells])) <|
    .cons (.of Synchronization.suits.understands (fun _ _ => rfl) (by simp [cells])) <|
    .cons (.of Diagnostics.suits.understands (fun _ _ => rfl) (by simp [cells])) <|
    .cons (.of Teardown.suits.understands (fun _ _ => rfl) (by simp [cells])) .nil
  alone := by
    simp only [fields, List.forall_mem_cons, List.not_mem_nil, false_implies, implies_true,
      and_true]
    exact ⟨(record_local Playback.suits.alone).map _, (record_local Crop.suits.alone).map _,
      (record_local Synchronization.suits.alone).map _,
      (record_local Diagnostics.suits.alone).map _, (record_local Teardown.suits.alone).map _⟩
  distinct := by decide
  complete a b h := by
    simp only [cells, List.forall_mem_cons] at h
    obtain ⟨h₁, h₂, h₃, h₄, h₅, -⟩ := h
    cases a
    cases b
    simp_all

/-- The sections and their keys. -/
def sections : List (String × List String) := [
  ("playback", Playback.cells.map Cell.key),
  ("cropping", Crop.cells.map Cell.key),
  ("synchronization", Synchronization.cells.map Cell.key),
  ("debug", Diagnostics.cells.map Cell.key),
  ("teardown", Teardown.cells.map Cell.key)]

/-- A known key comes twice, in the whole or in a section. -/
inductive Repeating : List Char → Prop
  | whole {l : List Char} (twice : Repeats (cells.map Cell.key) l) : Repeating l
  | member {ms : List Member} {pad : List Char} {m : Member} {keys : List String}
      (formed : ∀ m ∈ ms, m.Formed) (values : ∀ m ∈ ms, Value m.value) (blank : Blank pad)
      (mem : m ∈ ms) (known : (m.name, keys) ∈ sections) (twice : Repeats keys m.value) :
      Repeating (objectText ms pad)
  | item {items : List Slot} {pad : List Char} {i : Nat} {s : Slot} {name : String}
      {keys : List String} (formed : ∀ s ∈ items, s.Formed)
      (values : ∀ s ∈ items, Value s.value) (blank : Blank pad) (here : items[i]? = some s)
      (known : sections[i]? = some (name, keys)) (twice : Repeats keys s.value) :
      Repeating (arrayText items pad)

/-- A section's field refuses a section that has one of its keys twice. -/
theorem sections_refuse : List.Forall₂ (fun (f : Json.Field Config) (s : String × List String) =>
    f.key = s.1 ∧ ∀ l, Repeats s.2 l → f.read.outcome l = none) fields sections :=
  .cons ⟨rfl, fun _ hl => ((Playback.suits.refuses hl).map _).outcome⟩ <|
  .cons ⟨rfl, fun _ hl => ((Crop.suits.refuses hl).map _).outcome⟩ <|
  .cons ⟨rfl, fun _ hl => ((Synchronization.suits.refuses hl).map _).outcome⟩ <|
  .cons ⟨rfl, fun _ hl => ((Diagnostics.suits.refuses hl).map _).outcome⟩ <|
  .cons ⟨rfl, fun _ hl => ((Teardown.suits.refuses hl).map _).outcome⟩ .nil

/-- A record that names a field twice is refused. -/
theorem refuses_repeating {l : List Char} (hl : Repeating l) :
    (record fields {}).Reads l none := by
  cases hl with
  | whole twice => exact suits.refuses twice
  | @member ms pad m keys formed values blank mem known twice =>
      obtain ⟨i, hi, hs⟩ := List.mem_iff_getElem.mp known
      have hi' : i < fields.length := sections_refuse.length_eq ▸ hi
      obtain ⟨hk, hnone⟩ := sections_refuse.get hi' hi
      simp only [List.get_eq_getElem, hs] at hk hnone
      exact suits.refuses_member formed values blank mem (by simp) hk (hnone _ twice)
  | @item items pad i s name keys formed values blank here known twice =>
      obtain ⟨hi, hs⟩ := List.getElem?_eq_some_iff.mp known
      have hi' : i < fields.length := sections_refuse.length_eq ▸ hi
      obtain ⟨-, hnone⟩ := sections_refuse.get hi' hi
      simp only [List.get_eq_getElem, hs] at hnone
      exact suits.refuses_item formed values blank here (List.getElem?_eq_getElem hi')
        (hnone _ twice)

/-- The whole text is the value and spaces around it. -/
theorem run_reads {α : Type} {r : Reader α} {b l b' : List Char} {o : Option α}
    (h : r.Reads l o) (hb : Blank b) (hb' : Blank b') :
    (r.run (String.ofList (b ++ (l ++ b')))).toOption = o := by
  have hend : Ends b' := by simpa using Ends.append hb' .nil
  have hspaces : skipSpaces b' = [] := by
    have := @skipSpaces_append b' [] hb'
    rwa [List.append_nil] at this
  have h := h b b' hb hend
  rw [Reader.run, String.toList_ofList]
  rw [found] at h
  cases hr : r (b ++ (l ++ b')) with
  | error fault =>
      rw [hr] at h
      cases o with
      | none => rfl
      | some => exact absurd h (by simp [Except.toOption])
  | ok p =>
      rw [hr] at h
      obtain ⟨a, rfl, rfl⟩ := Option.map_eq_some_iff.mp h.symm
      simp [bind, Except.bind, hspaces, pure, Except.pure, Except.toOption]

/-- Every way of writing a configuration down is read as the configuration: the members of each
object in any order, others among them, with any spaces, and with what has its default left out;
any section as an array of its values, of which the last ones may be left out.  What is written
of each value is written of no other.  A text in which an object has a known key twice is not
read at all. -/
theorem parse_written :
    (∀ (c : Config) (b l b' : List Char), Blank b → Blank b' → Writes cells {} c l →
      parse (String.ofList (b ++ (l ++ b'))) = .ok c) ∧
    ((∀ c ∈ cells, c.Unambiguous) ∧ (∀ c ∈ Playback.cells, c.Unambiguous) ∧
      (∀ c ∈ Crop.cells, c.Unambiguous) ∧ (∀ c ∈ Synchronization.cells, c.Unambiguous) ∧
      (∀ c ∈ Diagnostics.cells, c.Unambiguous) ∧ ∀ c ∈ Teardown.cells, c.Unambiguous) ∧
    ∀ b l b' : List Char, Blank b → Blank b' → Repeating l →
      ∃ fault, parse (String.ofList (b ++ (l ++ b'))) = .error fault := by
  refine ⟨fun c b l b' hb hb' hl => ?_, ⟨suits.unambiguous, Playback.suits.unambiguous,
    Crop.suits.unambiguous, Synchronization.suits.unambiguous, Diagnostics.suits.unambiguous,
    Teardown.suits.unambiguous⟩, fun b l b' hb hb' hl => ?_⟩
  · have h := run_reads (suits.understands c l hl).2 hb hb'
    rw [parse]
    cases hp : (record fields {}).run (String.ofList (b ++ (l ++ b'))) with
    | error => exact absurd (hp ▸ h) (by simp [Except.toOption])
    | ok d =>
        rw [hp] at h
        exact congrArg _ (Option.some.inj h)
  · have h := run_reads (refuses_repeating hl) hb hb'
    rw [parse]
    cases hp : (record fields {}).run (String.ofList (b ++ (l ++ b'))) with
    | error fault => exact ⟨fault, rfl⟩
    | ok => exact absurd (hp ▸ h) (by simp [Except.toOption])

/-- An unknown member, a key with an escape, sections as arrays, a quarter with an exponent and
spaces in odd places; and a section that comes twice. -/
theorem odd_layout_read :
    parse " \x7b\"x\":[null ] , \"\\u0064ebug\":[true],\"cropping\":[25e-2]\x7d\n" =
      .ok { diagnostics := { enabled := true }, crop := { left := ⟨0x3e800000⟩ } } ∧
    ∃ fault, parse "\x7b\"debug\":[],\"debug\":[]\x7d" = .error fault := by
  have space : Blank [' '] := by simp [Blank, isSpace]
  have x : Spells ['x'] ['x', '"'] := .plainly (by simp)
  have debug : Spells ['d', 'e', 'b', 'u', 'g'] ['d', 'e', 'b', 'u', 'g', '"'] :=
    .plainly (by simp)
  have cropping : Spells ['c', 'r', 'o', 'p', 'p', 'i', 'n', 'g']
      ['c', 'r', 'o', 'p', 'p', 'i', 'n', 'g', '"'] := .plainly (by simp)
  have escaped : Spells ['d', 'e', 'b', 'u', 'g']
      ('\\' :: 'u' :: (['0', '0', '6', '4'] ++ ['e', 'b', 'u', 'g', '"'])) :=
    .numeric ⟨0, 0, 6, 4, by decide, by decide⟩ (.plainly (by simp))
  have unknown : Value (arrayText [⟨[], ['n', 'u', 'l', 'l'], [' ']⟩] []) :=
    .array (by simpa using ⟨.nil, space⟩) (by simpa using .nothing) .nil
  have enabled : Writes Diagnostics.cells {} { enabled := true }
      (arrayText [⟨[], ['t', 'r', 'u', 'e'], []⟩] []) :=
    .array (by simpa using ⟨.nil, .nil⟩) .nil rfl (.cons rfl .nil) (by simp)
  have quarter : Rounded Binary.convert (⟨0x3e800000⟩ : Single) ['2', '5', 'e', '-', '2'] := by
    refine ⟨.real ⟨0x3fd0000000000000⟩, ?_, rfl⟩
    exact @Stands.of _ [] ['2', '5'] [] ('e' :: (['-'] ++ ['2'])) (by simp)
      (.digits (by decide) ⟨by simp, by simp [isDigit, digit?]⟩) .none
      (.some (by simp) (by simp) ⟨by simp, by simp [isDigit, digit?]⟩) rfl
  have cropped : Writes Crop.cells {} { left := ⟨0x3e800000⟩ }
      (arrayText [⟨[], ['2', '5', 'e', '-', '2'], []⟩] []) :=
    .array (by simpa using ⟨.nil, .nil⟩) .nil rfl (.cons quarter .nil) (by simp)
  have empty : Value (arrayText [] []) := .array (by simp) (by simp) .nil
  constructor
  · refine parse_written.1 { diagnostics := { enabled := true }, crop := { left := ⟨0x3e800000⟩ } }
      [' '] (objectText [
      ⟨⟨[], arrayText [⟨[], ['n', 'u', 'l', 'l'], [' ']⟩] [], [' ']⟩, [], "x", ['x', '"'], []⟩,
      ⟨⟨[], arrayText [⟨[], ['t', 'r', 'u', 'e'], []⟩] [], []⟩, [' '], "debug",
        '\\' :: 'u' :: (['0', '0', '6', '4'] ++ ['e', 'b', 'u', 'g', '"']), []⟩,
      ⟨⟨[], arrayText [⟨[], ['2', '5', 'e', '-', '2'], []⟩] [], []⟩, [], "cropping",
        ['c', 'r', 'o', 'p', 'p', 'i', 'n', 'g', '"'], []⟩] []) ['\n']
      space (by simp [Blank, isSpace]) (.object ?_ .nil ?_ ?_ ?_ ?_)
    · simp only [List.forall_mem_cons, List.not_mem_nil, false_implies, implies_true, and_true]
      exact ⟨⟨⟨.nil, space⟩, .nil, x, .nil⟩, ⟨⟨.nil, .nil⟩, space, escaped, .nil⟩,
        ⟨.nil, .nil⟩, .nil, cropping, .nil⟩
    · simpa [cells] using ⟨enabled, cropped⟩
    · simpa [cells] using unknown
    · simp [Once, cells]
    · simp [cells]
  · refine parse_written.2.2 [] (objectText [
      ⟨⟨[], arrayText [] [], []⟩, [], "debug", ['d', 'e', 'b', 'u', 'g', '"'], []⟩,
      ⟨⟨[], arrayText [] [], []⟩, [], "debug", ['d', 'e', 'b', 'u', 'g', '"'], []⟩] []) [] .nil .nil
      (.whole (.of ?_ ?_ .nil ?_))
    · simpa using ⟨⟨.nil, .nil⟩, .nil, debug, .nil⟩
    · simpa using empty
    · simp [Once, cells]

end Config
end MediaHost

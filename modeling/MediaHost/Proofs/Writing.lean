import MediaHost.Proofs.Records
import Mathlib.Data.List.Nodup

/-!
# Proofs — Writing

The ways of writing a record down (`Writes`): as an object with its members in any order, others
among them, and those left out that are as at the start; or as an array of its values in order,
of which the last may be left out.  If a record's fields suit its cells (`Suits`), every way of
writing it is read as it (`Suits.understands`), and an object that has a key twice is refused
(`Suits.refuses`).
-/

namespace MediaHost.Json

/-- A value that a record keeps under a key, and the ways of writing it. -/
structure Cell (α : Type) where
  key : String
  {type : Type}
  get : α → type
  writes : type → List Char → Prop

/-- Whatever is written writes one value only. -/
def Cell.Unambiguous {α : Type} (c : Cell α) : Prop :=
  ∀ x y l, c.writes x l → c.writes y l → x = y

/-- None of the keys comes twice. -/
def Once (keys : List String) (ms : List Member) : Prop :=
  ms.Pairwise fun m n => m.name = n.name → m.name ∉ keys

/-- The ways of writing a record: what is left out is as at the start. -/
inductive Writes {α : Type} (cells : List (Cell α)) (start a : α) : List Char → Prop
  | object {ms : List Member} {pad : List Char} (formed : ∀ m ∈ ms, m.Formed) (blank : Blank pad)
      (known : ∀ m ∈ ms, ∀ c ∈ cells, c.key = m.name → c.writes (c.get a) m.value)
      (unknown : ∀ m ∈ ms, m.name ∉ cells.map Cell.key → Value m.value)
      (once : Once (cells.map Cell.key) ms)
      (left : ∀ c ∈ cells, (∀ m ∈ ms, m.name ≠ c.key) → c.get a = c.get start) :
      Writes cells start a (objectText ms pad)
  | array {given left : List (Cell α)} {items : List Slot} {pad : List Char}
      (formed : ∀ s ∈ items, s.Formed) (blank : Blank pad) (split : given ++ left = cells)
      (written : List.Forall₂ (fun c s => c.writes (c.get a) s.value) given items)
      (unchanged : ∀ c ∈ left, c.get a = c.get start) :
      Writes cells start a (arrayText items pad)

/-- An object that has one of the keys twice. -/
inductive Repeats (keys : List String) : List Char → Prop
  | of {ms : List Member} {pad : List Char} (formed : ∀ m ∈ ms, m.Formed)
      (values : ∀ m ∈ ms, Value m.value) (blank : Blank pad) (twice : ¬ Once keys ms) :
      Repeats keys (objectText ms pad)

section
variable {α β : Type} {fields : List (Field α)} {cells : List (Cell α)} {start a value : α}
variable {l : List Char}

/-- Every way of writing a value is read as the value. -/
def Reader.Understands (r : Reader β) (writes : β → List Char → Prop) : Prop :=
  ∀ x l, writes x l → Value l ∧ r.Reads l (some x)

/-- The field reads every way of writing the cell's value, and changes no other cell. -/
structure Pairs (cells : List (Cell α)) (f : Field α) (c : Cell α) : Prop where
  key : f.key = c.key
  unambiguous : c.Unambiguous
  value : ∀ a l, c.writes (c.get a) l → Value l
  reads : ∀ a l, c.writes (c.get a) l → ∃ change, f.read.outcome l = some change ∧
    ∀ b, c.get (change b) = c.get a ∧ ∀ d ∈ cells, d.key ≠ c.key → d.get (change b) = d.get b

/-- Fields and cells of one record. -/
structure Suits (fields : List (Field α)) (cells : List (Cell α)) : Prop where
  pairs : List.Forall₂ (Pairs cells) fields cells
  alone : ∀ f ∈ fields, f.read.Local
  distinct : (cells.map Cell.key).Nodup
  complete : ∀ a b, (∀ c ∈ cells, c.get a = c.get b) → a = b

theorem Pairs.of {key : String} {reader : Reader β} {get : α → β} {store : β → α → α}
    {writes : β → List Char → Prop} (hread : reader.Understands writes)
    (hget : ∀ x b, get (store x b) = x)
    (hkept : ∀ x b, ∀ d ∈ cells, d.key ≠ key → d.get (store x b) = d.get b) :
    Pairs cells (.of key reader store) ⟨key, get, writes⟩ where
  key := rfl
  unambiguous x y l hx hy :=
    Option.some.inj ((hread x l hx).2.outcome.symm.trans (hread y l hy).2.outcome)
  value _ l h := (hread _ l h).1
  reads _ l h :=
    ⟨_, ((hread _ l h).2.map store).outcome, fun b => ⟨hget _ b, hkept _ b⟩⟩

theorem keys_of_pairs {fs : List (Field α)} {cs : List (Cell α)}
    (h : List.Forall₂ (Pairs cells) fs cs) : fs.map Field.key = cs.map Cell.key := by
  induction h with
  | nil => rfl
  | cons pair _ ih => rw [List.map_cons, List.map_cons, pair.key, ih]

/-- A member's name belongs to no field, or to a field and its cell. -/
theorem find_of_pairs {fs : List (Field α)} {cs : List (Cell α)}
    (h : List.Forall₂ (Pairs cells) fs cs) (name : String) :
    (name ∉ cs.map Cell.key ∧ fs.find? (·.key = name) = none) ∨
      ∃ f, ∃ c ∈ cs, c.key = name ∧ fs.find? (·.key = name) = some f ∧ Pairs cells f c := by
  induction h with
  | nil => exact .inl ⟨by simp, rfl⟩
  | @cons f c fs cs pair _ ih =>
      by_cases hk : c.key = name
      · refine .inr ⟨f, c, by simp, hk, ?_, pair⟩
        simp [pair.key, hk]
      · have hf : f.key ≠ name := pair.key ▸ hk
        rcases ih with ⟨hn, hnone⟩ | ⟨g, d, hd, hdk, hg, hpair⟩
        · exact .inl ⟨by simpa [Ne.symm hk] using hn, by simpa [hf] using hnone⟩
        · exact .inr ⟨g, d, by simp [hd], hdk, by simpa [hf] using hg, hpair⟩

namespace Suits
variable (h : Suits fields cells)
include h

theorem eq_of_key {c d : Cell α} (hc : c ∈ cells) (hd : d ∈ cells) (hk : d.key = c.key) :
    d = c :=
  List.inj_on_of_nodup_map h.distinct hd hc hk

/-- A change that reads one cell keeps what the others have been read as. -/
theorem after_change {c : Cell α} (hc : c ∈ cells) {a : α} {change : α → α}
    (hchange : ∀ b, c.get (change b) = c.get a ∧
      ∀ d ∈ cells, d.key ≠ c.key → d.get (change b) = d.get b) {d : Cell α} (hd : d ∈ cells)
    (hv : d.key ≠ c.key → d.get value = d.get a) : d.get (change value) = d.get a := by
  by_cases hk : d.key = c.key
  · rw [h.eq_of_key hc hd hk]
    exact (hchange value).1
  · rw [(hchange value).2 d hd hk, hv hk]

theorem afterMembers_eq {a : α} : ∀ (ms : List Member) (seen : List String) (value : α),
    (∀ m ∈ ms, ∀ c ∈ cells, c.key = m.name → c.writes (c.get a) m.value) →
    Once (cells.map Cell.key) ms → (∀ m ∈ ms, m.name ∉ seen) →
    (∀ c ∈ cells, (∀ m ∈ ms, m.name ≠ c.key) → c.get value = c.get a) →
      afterMembers fields seen value ms = some a := by
  intro ms
  induction ms with
  | nil =>
      intro seen value _ _ _ hleft
      exact congrArg some (h.complete value a fun c hc => hleft c hc (by simp))
  | cons m ms ih =>
      intro seen value hknown honce hseen hleft
      obtain ⟨hfirst, honce⟩ := List.pairwise_cons.mp honce
      have ih seen value := ih seen value (fun n hn => hknown n (by simp [hn])) honce
      rw [afterMembers]
      rcases find_of_pairs h.pairs m.name with ⟨hunknown, hnone⟩ | ⟨f, c, hc, hk, hf, pair⟩
      · rw [hnone]
        refine ih seen value (fun n hn => hseen n (by simp [hn])) fun c hc hn => hleft c hc ?_
        rintro n hmem hname
        rcases List.mem_cons.mp hmem with rfl | hmem
        · exact hunknown (hname ▸ List.mem_map_of_mem hc)
        · exact hn n hmem hname
      · obtain ⟨change, hread, hchange⟩ := pair.reads a m.value (hknown m (by simp) c hc hk)
        have hnew : ∀ n ∈ ms, n.name ≠ m.name := fun n hn hname =>
          hfirst n hn hname.symm (hk ▸ List.mem_map_of_mem hc)
        simp only [hf, if_neg (hseen m (by simp)), hread, Option.bind_some]
        refine ih _ _ (fun n hn => ?_) fun d hd hn => h.after_change hc hchange hd fun hdk => ?_
        · rw [List.mem_cons, not_or]
          exact ⟨hnew n hn, hseen n (by simp [hn])⟩
        · refine hleft d hd fun n hmem hname => ?_
          rcases List.mem_cons.mp hmem with rfl | hmem
          · exact hdk (hname.symm.trans hk.symm)
          · exact hn n hmem hname

theorem afterItems_eq {a : α} {given : List (Cell α)} {items : List Slot}
    (hwritten : List.Forall₂ (fun c s => c.writes (c.get a) s.value) given items) :
    ∀ (fs : List (Field α)) (left : List (Cell α)) (value : α),
      List.Forall₂ (Pairs cells) fs (given ++ left) → (∀ c ∈ given, c ∈ cells) →
      (∀ c ∈ cells, c.key ∉ given.map Cell.key → c.get value = c.get a) →
        afterItems fs value items = some a := by
  induction hwritten with
  | nil =>
      intro fs left value _ _ hleft
      rw [afterItems]
      exact congrArg some (h.complete value a fun c hc => hleft c hc (by simp))
  | @cons c s given items hw _ ih =>
      intro fs left value hpairs hmem hleft
      obtain ⟨f, fs, pair, hrest, rfl⟩ := List.forall₂_cons_right_iff.mp hpairs
      obtain ⟨change, hread, hchange⟩ := pair.reads a s.value hw
      have hc := hmem c (by simp)
      rw [afterItems, hread, Option.bind_some]
      refine ih fs left _ hrest (fun d hd => hmem d (by simp [hd])) fun d hd hn => ?_
      refine h.after_change hc hchange hd fun hdk => hleft d hd ?_
      rw [List.map_cons, List.mem_cons, not_or]
      exact ⟨hdk, hn⟩

theorem pair_of_mem {c : Cell α} (hc : c ∈ cells) : ∃ f, Pairs cells f c := by
  rcases find_of_pairs h.pairs c.key with ⟨hn, -⟩ | ⟨f, d, hd, hk, -, pair⟩
  · exact absurd (List.mem_map_of_mem hc) hn
  · obtain rfl := h.eq_of_key hc hd hk
    exact ⟨f, pair⟩

theorem unambiguous : ∀ c ∈ cells, c.Unambiguous := by
  intro c hc
  obtain ⟨f, pair⟩ := h.pair_of_mem hc
  exact pair.unambiguous

theorem value_of_writes {c : Cell α} (hc : c ∈ cells) {a : α} (hw : c.writes (c.get a) l) :
    Value l := by
  obtain ⟨f, pair⟩ := h.pair_of_mem hc
  exact pair.value a l hw

/-- Every way of writing a record is read as the record. -/
theorem understands : (Reader.record fields start).Understands (Writes cells start) := by
  intro a l hw
  cases hw with
  | @object ms pad formed blank known unknown once left =>
      have values : ∀ m ∈ ms, Value m.value := by
        intro m hm
        rcases find_of_pairs h.pairs m.name with ⟨hn, -⟩ | ⟨f, c, hc, hk, -, -⟩
        · exact unknown m hm hn
        · exact h.value_of_writes hc (known m hm c hc hk)
      refine ⟨.object formed values blank, ?_⟩
      rw [← h.afterMembers_eq ms [] start known once (by simp) fun c hc hn => (left c hc hn).symm]
      exact Reader.record_object h.alone formed values blank
  | @array given left items pad formed blank split written unchanged =>
      subst split
      have values : ∀ s ∈ items, Value s.value := by
        intro s hs
        obtain ⟨i, hi, rfl⟩ := List.mem_iff_getElem.mp hs
        have hi' : i < given.length := written.length_eq ▸ hi
        exact h.value_of_writes (by simp) (written.get hi' hi)
      refine ⟨.array formed values blank, ?_⟩
      rw [← h.afterItems_eq written fields left start h.pairs (by simp +contextual) ?_]
      · exact Reader.record_array h.alone formed values blank
      · intro c hc hn
        rcases List.mem_append.mp hc with hc | hc
        · exact absurd (List.mem_map_of_mem hc) hn
        · exact (unchanged c hc).symm

end Suits

/-! ### Keys that come twice -/

/-- Members that are accepted have each known key once, and values that their fields accept. -/
theorem afterMembers_some : ∀ (ms : List Member) (seen : List String) (value : α) {v : α},
    afterMembers fields seen value ms = some v →
      Once (fields.map Field.key) ms ∧ ∀ m ∈ ms, ∀ f, fields.find? (·.key = m.name) = some f →
        m.name ∉ seen ∧ (f.read.outcome m.value).isSome := by
  intro ms
  induction ms with
  | nil => exact fun _ _ _ _ => ⟨.nil, by simp⟩
  | cons m ms ih =>
      intro seen value v hv
      rw [afterMembers] at hv
      cases hf : fields.find? (·.key = m.name) with
      | none =>
          rw [hf] at hv
          obtain ⟨honce, hms⟩ := ih seen value hv
          refine ⟨.cons (fun n _ _ => ?_) honce, fun n hn g hg => ?_⟩
          · simpa using hf
          · rcases List.mem_cons.mp hn with rfl | hn
            · exact absurd (hf.symm.trans hg) (by simp)
            · exact hms n hn g hg
      | some f =>
          simp only [hf] at hv
          split at hv
          · exact absurd hv (by simp)
          · next hseen =>
            obtain ⟨change, hread, hv⟩ := Option.bind_eq_some_iff.mp hv
            obtain ⟨honce, hms⟩ := ih _ _ hv
            refine ⟨.cons (fun n hn hname _ => ?_) honce, fun n hn g hg => ?_⟩
            · exact (hms n hn f (hname ▸ hf)).1 (by simp [hname])
            · rcases List.mem_cons.mp hn with rfl | hn
              · obtain rfl : f = g := Option.some.inj (hf.symm.trans hg)
                exact ⟨hseen, by simp [hread]⟩
              · exact ⟨fun h => (hms n hn g hg).1 (by simp [h]), (hms n hn g hg).2⟩

/-- Items that are accepted have values that their fields accept. -/
theorem afterItems_some : ∀ (items : List Slot) (fields : List (Field α)) (value : α) {v : α},
    afterItems fields value items = some v → ∀ (i : Nat) (f : Field α) (s : Slot),
      fields[i]? = some f → items[i]? = some s → (f.read.outcome s.value).isSome := by
  intro items
  induction items with
  | nil => simp
  | cons s items ih =>
      rintro (_ | ⟨f, fields⟩) value v hv (_ | i) g t hg ht
      · simp at hg
      · simp at hg
      · obtain ⟨change, hread, -⟩ := Option.bind_eq_some_iff.mp hv
        obtain rfl : f = g := by simpa using hg
        obtain rfl : s = t := by simpa using ht
        simp [hread]
      · obtain ⟨change, -, hv⟩ := Option.bind_eq_some_iff.mp hv
        exact ih fields _ hv i g t (by simpa using hg) (by simpa using ht)

theorem find_of_distinct {f : Field α} (hd : (fields.map Field.key).Nodup) (hf : f ∈ fields) :
    fields.find? (·.key = f.key) = some f := by
  cases hg : fields.find? (·.key = f.key) with
  | none => exact absurd (List.find?_eq_none.mp hg f hf) (by simp)
  | some g =>
      have hk : g.key = f.key := by simpa using List.find?_some hg
      rw [List.inj_on_of_nodup_map hd (List.mem_of_find?_eq_some hg) hf hk]

namespace Suits
variable (h : Suits fields cells)
include h

/-- An object that has a known key twice is refused. -/
theorem refuses (hl : Repeats (cells.map Cell.key) l) :
    (Reader.record fields start).Reads l none := by
  obtain ⟨formed, values, blank, twice⟩ := hl
  have hread := @Reader.record_object α fields _ _ start h.alone formed values blank
  cases hv : afterMembers fields [] start _ with
  | none => exact hv ▸ hread
  | some v => exact absurd (keys_of_pairs h.pairs ▸ (afterMembers_some _ _ _ hv).1) twice

/-- An object is refused if one of its fields refuses its value. -/
theorem refuses_member {ms : List Member} {pad : List Char} {m : Member} {f : Field α}
    (formed : ∀ m ∈ ms, m.Formed) (values : ∀ m ∈ ms, Value m.value) (blank : Blank pad)
    (hm : m ∈ ms) (hf : f ∈ fields) (hk : f.key = m.name) (hnone : f.read.outcome m.value = none) :
    (Reader.record fields start).Reads (objectText ms pad) none := by
  have hread := @Reader.record_object α fields _ _ start h.alone formed values blank
  cases hv : afterMembers fields [] start ms with
  | none => exact hv ▸ hread
  | some v =>
      have hd : (fields.map Field.key).Nodup := keys_of_pairs h.pairs ▸ h.distinct
      have := ((afterMembers_some _ _ _ hv).2 m hm f (hk ▸ find_of_distinct hd hf)).2
      exact absurd this (by simp [hnone])

/-- An array is refused if one of the fields refuses its item. -/
theorem refuses_item {items : List Slot} {pad : List Char} {i : Nat} {s : Slot} {f : Field α}
    (formed : ∀ s ∈ items, s.Formed) (values : ∀ s ∈ items, Value s.value) (blank : Blank pad)
    (hs : items[i]? = some s) (hf : fields[i]? = some f) (hnone : f.read.outcome s.value = none) :
    (Reader.record fields start).Reads (arrayText items pad) none := by
  have hread := @Reader.record_array α fields _ _ start h.alone formed values blank
  cases hv : afterItems fields start items with
  | none => exact hv ▸ hread
  | some v => exact absurd (afterItems_some _ _ _ hv i f s hf hs) (by simp [hnone])

end Suits

end

end MediaHost.Json

import MediaHost.Proofs.Locality

/-!
# Proofs — Records

A record is what its start becomes under its members or its items, one after the other
(`found_members`, `found_elements`): unknown members change nothing, a known one changes the
record as its own value says, and a known one that comes again is refused.  With fields that are
local a record is local (`record_local`), so sections may stand in a configuration.
-/

namespace MediaHost.Json

section
variable {α : Type}

/-- What members make of a record, `seen` being the known keys before them. -/
def afterMembers (fields : List (Field α)) : (seen : List String) → α → List Member → Option α
  | _, value, [] => some value
  | seen, value, m :: ms =>
    match fields.find? (·.key = m.name) with
    | none => afterMembers fields seen value ms
    | some field =>
      if m.name ∈ seen then none
      else (field.read.outcome m.value).bind fun change =>
        afterMembers fields (m.name :: seen) (change value) ms

/-- What items make of a record. -/
def afterItems : List (Field α) → α → List Slot → Option α
  | _, value, [] => some value
  | [], _, _ :: _ => none
  | field :: fields, value, s :: items =>
    (field.read.outcome s.value).bind fun change => afterItems fields (change value) items

end

namespace Reader
variable {α : Type} {fields : List (Field α)} {b cs l pad rest : List Char}

theorem found_members_close (c : Char) (budget : List Char) (first : Bool) (seen : List String)
    (value : α) (hb : Blank b) :
    found (members fields (c :: budget) first seen value) (b ++ '}' :: cs) = some (value, cs) := by
  rw [members, found_token _ hb, found_token_cons _ (by decide)]
  rfl

/-- One member: its key, and then what is made of its value. -/
theorem found_members_key (c : Char) (budget : List Char) (first : Bool) (seen : List String)
    (value : α) {m : Member} (hb : Blank b) (hm : m.Formed) :
    found (members fields (c :: budget) first seen value)
        (b ++ ((if first then m.text else ',' :: m.text) ++ cs)) =
      found (match fields.find? (·.key = m.name) with
        | none => do
          colon
          skipValue
          members fields budget false seen value
        | some field => do
          if m.name ∈ seen then fail .mismatch
          colon
          let change ← field.read
          members fields budget false (m.name :: seen) (change value))
        (m.afterKey ++ ':' :: (m.toSlot.text ++ cs)) := by
  cases first with
  | true =>
      rw [members, found_token _ hb, if_pos rfl, text_append, found_token _ hm.beforeKey,
        found_token_cons _ (by decide)]
      have hkey := @found_key_quoted (m.afterKey ++ ':' :: (m.toSlot.text ++ cs)) m hm
      refine (found_bind key _).trans ?_
      rw [hkey]
      rfl
  | false =>
      rw [members, found_token _ hb, if_neg (by simp), List.cons_append,
        found_token_cons _ (by decide)]
      have hkey := @found_key [] cs m .nil hm
      rw [List.nil_append] at hkey
      refine (found_bind advance _).trans ?_
      rw [found_advance]
      refine (found_bind key _).trans ?_
      rw [hkey]
      rfl

/-- One member: an unknown one changes nothing, a known one is refused if it comes again and
changes the record as its own value says if not. -/
theorem found_members_step (hf : ∀ f ∈ fields, f.read.Local) (c : Char) (budget : List Char)
    (first : Bool) (seen : List String) (value : α) {m : Member} (hb : Blank b) (hm : m.Formed)
    (hv : Value m.value) (hr : Ends rest) :
    found (members fields (c :: budget) first seen value)
        (b ++ ((if first then m.text else ',' :: m.text) ++ rest)) =
      match fields.find? (·.key = m.name) with
      | none => found (members fields budget false seen value) (m.after ++ rest)
      | some field =>
        if m.name ∈ seen then none
        else (field.read.outcome m.value).bind fun change =>
          found (members fields budget false (m.name :: seen) (change value))
            (m.after ++ rest) := by
  rw [found_members_key c budget first seen value hb hm]
  cases hfind : fields.find? (·.key = m.name) with
  | none =>
      have hskip : skipValue.Reads m.value (some ()) := fun _ _ hb hr => found_skipValue hv hb hr
      have hskip := hskip.slot hm.toFormed .nil hr
      rw [List.nil_append] at hskip
      refine (found_bind colon _).trans ?_
      rw [found_colon hm.afterKey]
      refine (found_bind skipValue _).trans ?_
      rw [hskip]
      rfl
  | some field =>
      have hlocal := hf field (List.mem_of_find?_eq_some hfind)
      have hread := (hlocal m.value hv).slot hm.toFormed .nil hr
      rw [List.nil_append] at hread
      simp only
      split
      · rfl
      · refine (found_bind colon _).trans ?_
        rw [found_colon hm.afterKey]
        refine (found_bind field.read _).trans ?_
        rw [hread]
        cases field.read.outcome m.value <;> rfl

/-- The members of an object make of a record what they make of it one after the other. -/
theorem found_members (hf : ∀ f ∈ fields, f.read.Local) (hp : Blank pad) :
    ∀ (ms : List Member), (∀ m ∈ ms, m.Formed) → (∀ m ∈ ms, Value m.value) →
      ∀ (budget : List Char) (first : Bool) (seen : List String) (value : α) b, Blank b →
        (entries first (ms.map Member.text)).length < budget.length →
          found (members fields budget first seen value)
              (b ++ (entries first (ms.map Member.text) ++ (pad ++ '}' :: rest))) =
            (afterMembers fields seen value ms).map (·, rest) := by
  intro ms
  induction ms with
  | nil =>
      rintro - - (_ | ⟨c, budget⟩) first seen value b hb hlen
      · exact absurd hlen (by simp)
      · rw [List.map_nil, entries, List.nil_append, ← List.append_assoc,
          found_members_close c budget first seen value (hb.append hp)]
        rfl
  | cons m ms ih =>
      rintro hm hv (_ | ⟨c, budget⟩) first seen value b hb hlen
      · exact absurd hlen (by simp)
      · have ih := ih (fun n h => hm n (by simp [h])) (fun n h => hv n (by simp [h])) budget false
        have hm := hm m (by simp)
        have hends := @ends_entries pad rest '}' (ms.map Member.text) hp (by simp)
        have hlen : (entries false (ms.map Member.text)).length < budget.length := by
          have : 0 < m.text.length := by simp [Member.text]
          cases first <;> simp [entries] at hlen <;> omega
        rw [List.map_cons, entries, List.append_assoc, afterMembers,
          found_members_step hf c budget first seen value hb hm (hv m (by simp)) hends]
        cases fields.find? (·.key = m.name) with
        | none => exact ih seen value m.after hm.after hlen
        | some field =>
            simp only
            split
            · rfl
            · cases field.read.outcome m.value with
              | none => rfl
              | some change => exact ih (m.name :: seen) (change value) m.after hm.after hlen

/-! ### Arrays -/

theorem slot_text_append (s : Slot) (cs : List Char) :
    s.text ++ cs = s.before ++ (s.value ++ (s.after ++ cs)) := by
  simp [Slot.text]

theorem found_elements_close (first : Bool) (value : α) (hb : Blank b) :
    found (elements fields first value) (b ++ ']' :: cs) = some (value, cs) := by
  cases fields <;>
  · rw [elements, found_token _ hb, found_token_cons _ (by decide)]
    rfl

/-- An item for which there is no field. -/
theorem found_elements_beyond (first : Bool) (value : α) {s : Slot} (hb : Blank b)
    (hs : s.Formed) (hv : Value s.value) :
    found (elements [] first value) (b ++ ((if first then s.text else ',' :: s.text) ++ cs)) =
      none := by
  obtain ⟨c, l, hl, hc, hne⟩ := hv.head
  cases first with
  | true =>
      rw [if_pos rfl, slot_text_append, hl, elements, found_token _ hb, found_token _ hs.before,
        List.cons_append, found_token_cons _ hc]
      split
      · next h => exact absurd h (by simp)
      · next h => exact absurd (Option.some.inj h) (by rintro rfl; simp at hne)
      · rfl
  | false =>
      rw [if_neg (by simp), elements, found_token _ hb, List.cons_append,
        found_token_cons _ (by decide)]
      rfl

/-- An item is read once the comma and the spaces before it are taken. -/
theorem found_elements_item (field : Field α) (fields : List (Field α)) (first : Bool) (value : α)
    {s : Slot} (hb : Blank b) (hs : s.Formed) (hv : Value s.value) :
    found (elements (field :: fields) first value)
        (b ++ ((if first then s.text else ',' :: s.text) ++ cs)) =
      found (field.read >>= fun change => elements fields false (change value))
        (s.value ++ (s.after ++ cs)) := by
  obtain ⟨c, l, hl, hc, hne⟩ := hv.head
  have hne : c ≠ ']' := by
    rintro rfl
    simp at hne
  cases first with
  | true =>
      rw [if_pos rfl, slot_text_append, hl, elements, found_token _ hb, found_token _ hs.before,
        List.cons_append, found_token_cons _ hc]
      split
      · next h => exact absurd h (by simp)
      · next h => exact absurd (Option.some.inj h) hne
      · rfl
  | false =>
      rw [if_neg (by simp), elements, found_token _ hb, List.cons_append,
        found_token_cons _ (by decide)]
      refine (found_bind advance _).trans ?_
      rw [found_advance, slot_text_append, hl]
      refine (found_token _ hs.before).trans ((found_token_cons _ hc).trans ?_)
      split
      · next h => exact absurd h (by simp)
      · next h => exact absurd (Option.some.inj h) hne
      · rfl

/-- The items of an array make of a record what they make of it one after the other. -/
theorem found_elements (hp : Blank pad) : ∀ (items : List Slot), (∀ s ∈ items, s.Formed) →
    (∀ s ∈ items, Value s.value) → ∀ (fields : List (Field α)), (∀ f ∈ fields, f.read.Local) →
      ∀ (first : Bool) (value : α) b, Blank b →
        found (elements fields first value)
            (b ++ (entries first (items.map Slot.text) ++ (pad ++ ']' :: rest))) =
          (afterItems fields value items).map (·, rest) := by
  intro items
  induction items with
  | nil =>
      intro _ _ fields _ first value b hb
      rw [List.map_nil, entries, List.nil_append, ← List.append_assoc,
        found_elements_close first value (hb.append hp), afterItems]
      rfl
  | cons s items ih =>
      intro hs hv fields hf first value b hb
      have ih := ih (fun t h => hs t (by simp [h])) (fun t h => hv t (by simp [h]))
      have hs := hs s (by simp)
      have hv := hv s (by simp)
      rw [List.map_cons, entries, List.append_assoc]
      cases fields with
      | nil => rw [found_elements_beyond first value hb hs hv, afterItems, Option.map_none]
      | cons field fields =>
          have hends := @ends_entries pad rest ']' (items.map Slot.text) hp (by simp)
          have hread := hf field (by simp) s.value hv [] _ .nil (hends.append hs.after)
          rw [List.nil_append] at hread
          rw [found_elements_item field fields first value hb hs hv, found_bind, hread, afterItems]
          cases field.read.outcome s.value with
          | none => rfl
          | some change =>
              exact ih fields (fun f h => hf f (by simp [h])) false (change value) s.after hs.after

/-! ### Both ways of writing a record -/

theorem record_object {ms : List Member} {start : α} (hf : ∀ f ∈ fields, f.read.Local)
    (hm : ∀ m ∈ ms, m.Formed) (hv : ∀ m ∈ ms, Value m.value) (hp : Blank pad) :
    (record fields start).Reads (objectText ms pad) (afterMembers fields [] start ms) := by
  refine reads_token (.object hm hv hp) fun rest _ => ?_
  simp only [objectText, List.head?_cons, List.cons_append, List.append_assoc, List.nil_append]
  refine (found_bind advance _).trans ?_
  rw [found_advance]
  refine (found_bind get _).trans ?_
  rw [found_get]
  refine found_members hf hp ms hm hv _ true [] start [] .nil ?_
  simp only [List.length_append, List.length_cons]
  omega

theorem record_array {items : List Slot} {start : α} (hf : ∀ f ∈ fields, f.read.Local)
    (hs : ∀ s ∈ items, s.Formed) (hv : ∀ s ∈ items, Value s.value) (hp : Blank pad) :
    (record fields start).Reads (arrayText items pad) (afterItems fields start items) := by
  refine reads_token (.array hs hv hp) fun rest _ => ?_
  simp only [arrayText, List.head?_cons, List.cons_append, List.append_assoc, List.nil_append]
  refine (found_bind advance _).trans ?_
  rw [found_advance]
  exact found_elements hp items hs hv fields hf true start [] .nil

theorem record_local {start : α} (hf : ∀ f ∈ fields, f.read.Local) :
    (record fields start).Local := by
  refine local_of fun l hl => ?_
  have value := hl
  cases hl with
  | array formed values blank => exact ⟨_, record_array hf formed values blank⟩
  | object formed values blank => exact ⟨_, record_object hf formed values blank⟩
  | number numeral => exact ⟨none, reads_number_wrong numeral (by simp [decimalDigits])⟩
  | nothing | yes | no | text =>
      exact ⟨none, reads_token value fun _ _ => found_wrongShape⟩

end Reader
end MediaHost.Json

import MediaHost.Proofs.Writing

/-!
# Proofs — Gaps

Texts with a gap for one value of a record (`Gapped`), whatever is written around it.  The record
comes out as the rest of the text says, with the value in the gap put into it, or not at all
(`Settable.fills`): whether the rest is accepted does not hang on the value.  A record in the gap
of another has its own gaps in the whole text (`Reader.Fills.comp`).
-/

namespace MediaHost.Json

/-- The slot with another value in it. -/
def Slot.hold (s : Slot) (l : List Char) : Slot := { s with value := l }

/-- The member with another value. -/
def Member.hold (m : Member) (l : List Char) : Member := { m with value := l }

/-- A record's text with a gap for the value of a key: in an object, the key is there and has the
gap for its value; in an array, the gap is where the key's value belongs. -/
inductive Gapped (keys : List String) (key : String) : (List Char → List Char) → Prop
  | member {before after : List Member} {m : Member} {pad : List Char}
      (formed : ∀ n ∈ before ++ m :: after, n.Formed)
      (values : ∀ n ∈ before ++ after, Value n.value) (blank : Blank pad) (named : m.name = key) :
      Gapped keys key fun l => objectText (before ++ m.hold l :: after) pad
  | item {before after : List Slot} {s : Slot} {pad : List Char}
      (formed : ∀ t ∈ before ++ s :: after, t.Formed)
      (values : ∀ t ∈ before ++ after, Value t.value) (blank : Blank pad)
      (here : keys[before.length]? = some key) :
      Gapped keys key fun l => arrayText (before ++ s.hold l :: after) pad

section
variable {α β γ : Type} {fields : List (Field α)} {key : String} {reader : Reader β}
  {store : β → α → α} {gap : List Char → List Char} {l : List Char} {start : α}

theorem Reader.outcome_map {r : Reader β} (f : β → γ) :
    (f <$> r).outcome l = (r.outcome l).map f := by
  rw [Reader.outcome, Reader.outcome, Reader.found_map, Option.map_map, Option.map_map]
  rfl

/-- What the reader makes of the text is what the rest of it says, with the value in the gap put
into it. -/
def Reader.Fills (whole : Reader α) (gap : List Char → List Char) (reader : Reader β)
    (put : β → α → α) : Prop :=
  ∃ rest : Option α, ∀ l, Value l → Value (gap l) ∧
    whole.outcome (gap l) = (reader.outcome l).bind fun b => rest.map (put b)

/-- A gap within a gap. -/
theorem Reader.Fills.comp {whole : Reader γ} {part : Reader α} {outer : List Char → List Char}
    {put : α → γ → γ} {get : γ → α} (houter : whole.Fills outer part put)
    (h : part.Fills gap reader store) (hget : ∀ a c, get (put a c) = a)
    (hput : ∀ a b c, put b (put a c) = put b c) :
    whole.Fills (outer ∘ gap) reader fun b c => put (store b (get c)) c := by
  obtain ⟨rest, hrest⟩ := houter
  obtain ⟨inner, hinner⟩ := h
  refine ⟨inner.bind fun a => rest.map (put a), fun l hl => ?_⟩
  obtain ⟨hv, hread⟩ := hinner l hl
  obtain ⟨hvalue, hwhole⟩ := hrest _ hv
  refine ⟨hvalue, ?_⟩
  rw [Function.comp_apply, hwhole, hread]
  cases reader.outcome l with
  | none => rfl
  | some b =>
      cases inner with
      | none => rfl
      | some a => simp [Function.comp_def, hget, hput]

/-- What the field makes of a record does not touch what `store` puts there. -/
def Field.Apart (f : Field α) (store : β → α → α) : Prop :=
  ∀ l change, f.read.outcome l = some change → ∀ b x, change (store b x) = store b (change x)

theorem Field.Apart.of {k : String} {r : Reader γ} {s : γ → α → α}
    (h : ∀ a b x, s a (store b x) = store b (s a x)) : (Field.of k r s).Apart store := by
  intro l change hread b x
  obtain ⟨a, -, rfl⟩ := Option.map_eq_some_iff.mp ((Reader.outcome_map s).symm.trans hread)
  exact h a b x

@[simp] theorem Field.of_key (k : String) (r : Reader β) (s : β → α → α) :
    (Field.of k r s).key = k := rfl

/-- One of the fields puts its value where no other field puts anything. -/
structure Settable (fields : List (Field α)) (key : String) (reader : Reader β)
    (store : β → α → α) : Prop where
  alone : ∀ f ∈ fields, f.read.Local
  distinct : (fields.map Field.key).Nodup
  mem : .of key reader store ∈ fields
  apart : ∀ f ∈ fields, f.key = key ∨ f.Apart store

theorem Suits.settable {cells : List (Cell α)} (h : Suits fields cells)
    (mem : .of key reader store ∈ fields) (apart : ∀ f ∈ fields, f.key = key ∨ f.Apart store) :
    Settable fields key reader store :=
  ⟨h.alone, keys_of_pairs h.pairs ▸ h.distinct, mem, apart⟩

namespace Settable
variable (h : Settable fields key reader store)
include h

/-- Members after the key has come do not touch its value. -/
theorem afterMembers_store (b : β) : ∀ (ms : List Member) (seen : List String) (x : α), key ∈ seen →
    afterMembers fields seen (store b x) ms = (afterMembers fields seen x ms).map (store b) := by
  intro ms
  induction ms with
  | nil => exact fun _ _ _ => rfl
  | cons m ms ih =>
      intro seen x hseen
      rw [afterMembers, afterMembers]
      cases hf : fields.find? (·.key = m.name) with
      | none => exact ih seen x hseen
      | some f =>
          simp only
          split
          · rfl
          · next hnew =>
            have hkey : f.key = m.name := by simpa using List.find?_some hf
            have hne : f.key ≠ key := fun hk => hnew (hkey ▸ hk ▸ hseen)
            have hapart := (h.apart f (List.mem_of_find?_eq_some hf)).resolve_left hne
            cases hread : f.read.outcome m.value with
            | none => rfl
            | some change =>
                simp only [Option.bind_some]
                rw [hapart m.value change hread]
                exact ih _ _ (List.mem_cons_of_mem _ hseen)

theorem afterMembers_gap {m : Member} (hm : m.name = key) (after : List Member) :
    ∀ (before : List Member) (seen : List String) (x : α), ∃ rest : Option α, ∀ l,
      afterMembers fields seen x (before ++ m.hold l :: after) =
        (reader.outcome l).bind fun b => rest.map (store b) := by
  intro before
  induction before with
  | nil =>
      intro seen x
      have hfind : fields.find? (·.key = key) = some (.of key reader store) :=
        find_of_distinct h.distinct h.mem
      by_cases hseen : key ∈ seen
      · refine ⟨none, fun l => ?_⟩
        simp [afterMembers, Member.hold, hm, hfind, hseen]
      · refine ⟨afterMembers fields (key :: seen) x after, fun l => ?_⟩
        have hread : (Field.of key reader store).read.outcome l = (reader.outcome l).map store :=
          Reader.outcome_map store
        simp only [List.nil_append, afterMembers, Member.hold, hm, hfind, hseen, if_false, hread]
        cases reader.outcome l with
        | none => rfl
        | some b => exact h.afterMembers_store b after (key :: seen) x List.mem_cons_self
  | cons n before ih =>
      intro seen x
      simp only [List.cons_append, afterMembers]
      cases fields.find? (·.key = n.name) with
      | none => exact ih seen x
      | some f =>
          simp only
          by_cases hseen : n.name ∈ seen
          · exact ⟨none, fun l => by simp [hseen]⟩
          · cases f.read.outcome n.value with
            | none => exact ⟨none, fun l => by simp [hseen]⟩
            | some change => simpa [hseen] using ih (n.name :: seen) (change x)

omit h in
theorem afterItems_store (b : β) : ∀ (items : List Slot) (fields : List (Field α)) (x : α),
    (∀ f ∈ fields, f.Apart store) →
      afterItems fields (store b x) items = (afterItems fields x items).map (store b) := by
  intro items
  induction items with
  | nil => exact fun fields x _ => by rw [afterItems, afterItems]; rfl
  | cons s items ih =>
      rintro (_ | ⟨f, fields⟩) x hapart
      · rfl
      · rw [afterItems, afterItems]
        cases hread : f.read.outcome s.value with
        | none => rfl
        | some change =>
            simp only [Option.bind_some]
            rw [hapart f (by simp) s.value change hread]
            exact ih fields _ fun g hg => hapart g (by simp [hg])

theorem afterItems_gap (s : Slot) (after : List Slot) :
    ∀ (before : List Slot) (fs : List (Field α)) (x : α), fs.Sublist fields →
      (fs.map Field.key)[before.length]? = some key → ∃ rest : Option α, ∀ l,
        afterItems fs x (before ++ s.hold l :: after) =
          (reader.outcome l).bind fun b => rest.map (store b) := by
  intro before
  induction before with
  | nil =>
      rintro (_ | ⟨f, fs⟩) x hsub hhere
      · simp at hhere
      · have hf : f ∈ fields := hsub.subset (by simp)
        obtain rfl : f = .of key reader store :=
          List.inj_on_of_nodup_map h.distinct hf h.mem (by simpa using hhere)
        have hnodup := List.nodup_cons.mp (h.distinct.sublist (hsub.map Field.key))
        have hapart : ∀ g ∈ fs, g.Apart store := by
          intro g hg
          refine (h.apart g (hsub.subset (by simp [hg]))).resolve_left fun hk => hnodup.1 ?_
          rw [Field.of_key, ← hk]
          exact List.mem_map_of_mem hg
        refine ⟨afterItems fs x after, fun l => ?_⟩
        have hread : (Field.of key reader store).read.outcome l = (reader.outcome l).map store :=
          Reader.outcome_map store
        simp only [List.nil_append, afterItems, Slot.hold, hread]
        cases reader.outcome l with
        | none => rfl
        | some b => exact afterItems_store b after fs x hapart
  | cons t before ih =>
      rintro (_ | ⟨f, fs⟩) x hsub hhere
      · simp at hhere
      · simp only [List.cons_append, afterItems]
        cases f.read.outcome t.value with
        | none => exact ⟨none, fun l => by simp⟩
        | some change =>
            exact ih fs (change x) ((List.sublist_cons_self f fs).trans hsub) (by simpa using hhere)

/-- The record comes out as the rest of its text says, with the value in the gap put into it. -/
theorem fills (hgap : Gapped (fields.map Field.key) key gap) :
    (Reader.record fields start).Fills gap reader store := by
  cases hgap with
  | @member before after m pad formed values blank named =>
      obtain ⟨rest, hrest⟩ := h.afterMembers_gap named after before [] start
      refine ⟨rest, fun l hl => ?_⟩
      have hformed : ∀ n ∈ before ++ m.hold l :: after, n.Formed := by
        simp only [List.forall_mem_append, List.forall_mem_cons] at formed ⊢
        obtain ⟨hbefore, hm, hafter⟩ := formed
        exact ⟨hbefore, ⟨⟨hm.before, hm.after⟩, hm.beforeKey, hm.key, hm.afterKey⟩, hafter⟩
      have hvalues : ∀ n ∈ before ++ m.hold l :: after, Value n.value := by
        simp only [List.forall_mem_append, List.forall_mem_cons] at values ⊢
        exact ⟨values.1, hl, values.2⟩
      exact ⟨.object hformed hvalues blank,
        (Reader.record_object h.alone hformed hvalues blank).outcome.trans (hrest l)⟩
  | @item before after s pad formed values blank here =>
      obtain ⟨rest, hrest⟩ :=
        h.afterItems_gap s after before fields start (List.Sublist.refl _) here
      refine ⟨rest, fun l hl => ?_⟩
      have hformed : ∀ t ∈ before ++ s.hold l :: after, t.Formed := by
        simp only [List.forall_mem_append, List.forall_mem_cons] at formed ⊢
        obtain ⟨hbefore, hs, hafter⟩ := formed
        exact ⟨hbefore, ⟨hs.before, hs.after⟩, hafter⟩
      have hvalues : ∀ t ∈ before ++ s.hold l :: after, Value t.value := by
        simp only [List.forall_mem_append, List.forall_mem_cons] at values ⊢
        exact ⟨values.1, hl, values.2⟩
      exact ⟨.array hformed hvalues blank,
        (Reader.record_array h.alone hformed hvalues blank).outcome.trans (hrest l)⟩

end Settable

end

end MediaHost.Json

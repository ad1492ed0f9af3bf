import MediaHost.Table

/-!
# Proofs — Table

Tables whose keys are distinct, the image of a table under a function, and how the number of
entries with a property changes with each operation.
-/

namespace MediaHost.Table
variable {α β : Type}

/-- No key has two entries. -/
def Distinct (t : Table α) : Prop := (t.entries.map (·.1)).Nodup

/-- The table of the images. -/
def map (f : α → β) (t : Table α) : Table β := ⟨t.entries.map fun e => (e.1, f e.2)⟩

/-! ### Entries -/

/-- Nothing is found exactly where no entry has the key. -/
theorem find_eq_none {k : Nat} {es : List (Nat × α)} : find k es = none ↔ k ∉ es.map (·.1) := by
  induction es with
  | nil => simp [find]
  | cons e es ih =>
      by_cases he : e.1 = k
      · simp [find, he]
      · simp only [find, he, if_false, ih, List.map_cons, List.mem_cons, not_or]
        exact ⟨fun h => ⟨fun hk => he hk.symm, h⟩, fun h => h.2⟩

/-- The image of what is found. -/
theorem find_map (f : α → β) (k : Nat) (es : List (Nat × α)) :
    find k (es.map fun e => (e.1, f e.2)) = (find k es).map f := by
  induction es with
  | nil => rfl
  | cons e es ih =>
      simp only [List.map_cons, find, ih]
      split <;> rfl

theorem map_setIn (f : α → β) (k : Nat) (v : α) (es : List (Nat × α)) :
    (setIn k v es).map (fun e => (e.1, f e.2)) =
      setIn k (f v) (es.map fun e => (e.1, f e.2)) := by
  induction es with
  | nil => rfl
  | cons e es ih =>
      simp only [setIn, List.map_cons]
      split
      · rfl
      · simp only [List.map_cons, ih]

/-- Setting what is there changes nothing. -/
theorem setIn_find {k : Nat} {v : α} {es : List (Nat × α)} (h : find k es = some v) :
    setIn k v es = es := by
  induction es with
  | nil => simp [find] at h
  | cons e es ih =>
      simp only [find] at h
      simp only [setIn]
      split
      · next he =>
          rw [if_pos he] at h
          cases h
          rw [← he]
      · next he => rw [ih (by rwa [if_neg he] at h)]

/-- A new key comes last; an old one keeps its place. -/
theorem keys_setIn (k : Nat) (v : α) (es : List (Nat × α)) :
    (setIn k v es).map (·.1) =
      if k ∈ es.map (·.1) then es.map (·.1) else es.map (·.1) ++ [k] := by
  induction es with
  | nil => rfl
  | cons e es ih =>
      by_cases he : e.1 = k
      · simp [setIn, he]
      · have he' : k ≠ e.1 := fun h => he h.symm
        simp only [setIn, he, if_false, List.map_cons, ih, List.mem_cons, he', false_or]
        split <;> rfl

/-! ### Images -/

@[simp] theorem get?_map (f : α → β) (t : Table α) (k : Nat) :
    (t.map f).get? k = (t.get? k).map f :=
  find_map f k t.entries

@[simp] theorem map_set (f : α → β) (t : Table α) (k : Nat) (v : α) :
    (t.set k v).map f = (t.map f).set k (f v) :=
  congrArg Table.mk (map_setIn f k v t.entries)

@[simp] theorem map_erase (f : α → β) (t : Table α) (k : Nat) :
    (t.erase k).map f = (t.map f).erase k := by
  simp only [map, erase, List.filter_map]
  rfl

/-- A change seen through an image. -/
theorem map_modify {f : α → β} {g : α → α} {r : β → β} (h : ∀ v, f (g v) = r (f v))
    (t : Table α) (k : Nat) : (t.modify k g).map f = (t.map f).modify k r := by
  simp only [map, modify, List.map_map, mk.injEq, List.map_inj_left, Function.comp_apply]
  intro e _
  split <;> simp [h]

/-- A change that an image does not show. -/
theorem map_modify_eq {f : α → β} {g : α → α} (h : ∀ v, f (g v) = f v) (t : Table α) (k : Nat) :
    (t.modify k g).map f = t.map f := by
  simp only [map, modify, List.map_map, mk.injEq, List.map_inj_left, Function.comp_apply]
  intro e _
  split <;> simp [h]

theorem set_self {t : Table α} {k : Nat} {v : α} (h : t.get? k = some v) : t.set k v = t :=
  congrArg Table.mk (setIn_find h)

/-! ### Distinct keys -/

@[simp] theorem distinct_empty : ({} : Table α).Distinct := List.nodup_nil

@[simp] theorem distinct_map {f : α → β} {t : Table α} : (t.map f).Distinct ↔ t.Distinct := by
  simp [Distinct, map, List.map_map, Function.comp_def]

/-- Setting adds a key only if it is new. -/
theorem Distinct.set {t : Table α} (h : t.Distinct) (k : Nat) (v : α) : (t.set k v).Distinct := by
  simp only [Distinct, Table.set]
  rw [keys_setIn]
  split
  · exact h
  · next hk =>
      refine List.nodup_append.mpr ⟨h, by simp, ?_⟩
      intro a ha b hb hab
      rw [List.mem_singleton.mp hb] at hab
      exact hk (hab ▸ ha)

theorem Distinct.erase {t : Table α} (h : t.Distinct) (k : Nat) : (t.erase k).Distinct :=
  List.Nodup.sublist (List.filter_sublist.map _) h

/-- A change of a value leaves the keys. -/
theorem Distinct.modify {t : Table α} (h : t.Distinct) (k : Nat) (f : α → α) :
    (t.modify k f).Distinct := by
  have hkeys : (t.modify k f).entries.map (·.1) = t.entries.map (·.1) := by
    simp only [Table.modify, List.map_map, List.map_inj_left, Function.comp_apply]
    intro e _
    split <;> rfl
  simp only [Distinct]
  rwa [hkeys]

/-- There is nothing to change where there is no entry. -/
theorem modify_of_none {t : Table α} {k : Nat} (h : t.get? k = none) (f : α → α) :
    t.modify k f = t := by
  refine congrArg Table.mk ((List.map_congr_left fun e he => if_neg fun hk => ?_).trans
    (List.map_id _))
  exact find_eq_none.mp h (List.mem_map.mpr ⟨e, he, hk⟩)

/-- With distinct keys, changing an entry is setting it. -/
theorem Distinct.modify_eq_set {t : Table α} (h : t.Distinct) {k : Nat} {v : α}
    (hv : t.get? k = some v) (f : α → α) : t.modify k f = t.set k (f v) := by
  obtain ⟨es⟩ := t
  refine congrArg Table.mk ?_
  change find k es = some v at hv
  change (es.map (·.1)).Nodup at h
  induction es with
  | nil => simp [find] at hv
  | cons e es ih =>
      obtain ⟨hmem, hnd⟩ := List.nodup_cons.mp h
      simp only [find] at hv
      simp only [List.map_cons, setIn]
      split
      · next he =>
          rw [if_pos he] at hv
          cases hv
          -- the rest has no entry of this key
          have hrest : es.map (fun e => if e.1 = k then (e.1, f e.2) else e) = es := by
            refine (List.map_congr_left fun e' he' => if_neg fun hk => hmem ?_).trans
              (List.map_id es)
            exact List.mem_map.mpr ⟨e', he', hk.trans he.symm⟩
          rw [hrest, he]
      · next he => rw [ih (by rwa [if_neg he] at hv) hnd]

/-! ### Counting -/

theorem size_eq_count (t : Table α) : t.size = t.count fun _ => true := by
  simp [size, count]

/-- What counts in the image counts before it. -/
theorem count_map (f : α → β) (t : Table α) (p : β → Bool) :
    (t.map f).count p = t.count fun v => p (f v) := by
  simp [count, map, List.countP_map, Function.comp_def]

/-- A new entry counts in addition. -/
theorem count_set_new {t : Table α} {k : Nat} (h : t.get? k = none) (v : α) (p : α → Bool) :
    (t.set k v).count p = t.count p + (p v).toNat := by
  obtain ⟨es⟩ := t
  change find k es = none at h
  change (setIn k v es).countP _ = es.countP _ + _
  induction es with
  | nil => cases hp : p v <;> simp [setIn, hp]
  | cons e es ih =>
      simp only [find] at h
      split at h
      · simp at h
      · next he => simp only [setIn, he, if_false, List.countP_cons, ih h]; omega

/-- An entry that is replaced counts in the place of the old one. -/
theorem count_set_old {t : Table α} {k : Nat} {u : α} (h : t.get? k = some u) (v : α)
    (p : α → Bool) : (t.set k v).count p + (p u).toNat = t.count p + (p v).toNat := by
  obtain ⟨es⟩ := t
  change find k es = some u at h
  change (setIn k v es).countP _ + _ = es.countP _ + _
  induction es with
  | nil => simp [find] at h
  | cons e es ih =>
      simp only [find] at h
      split at h
      · next he =>
          cases h
          have hbit : ∀ b : Bool, (if b = true then 1 else 0) = b.toNat := by decide
          simp only [setIn, he, if_true, List.countP_cons, hbit]
          omega
      · next he =>
          have := ih h
          simp only [setIn, he, if_false, List.countP_cons]
          omega

/-- With distinct keys, an entry that is erased counts no longer. -/
theorem Distinct.count_erase {t : Table α} (ht : t.Distinct) {k : Nat} {u : α}
    (h : t.get? k = some u) (p : α → Bool) :
    (t.erase k).count p + (p u).toNat = t.count p := by
  obtain ⟨es⟩ := t
  change find k es = some u at h
  change (es.map (·.1)).Nodup at ht
  change (es.filter (·.1 ≠ k)).countP _ + _ = es.countP _
  induction es with
  | nil => simp [find] at h
  | cons e es ih =>
      obtain ⟨hmem, hnd⟩ := List.nodup_cons.mp ht
      simp only [find] at h
      split at h
      · next he =>
          cases h
          -- the rest has no entry of this key
          have hrest : es.filter (·.1 ≠ k) = es := by
            refine List.filter_eq_self.mpr fun e' he' => ?_
            have hne : e'.1 ≠ k := fun hk =>
              hmem (List.mem_map.mpr ⟨e', he', hk.trans he.symm⟩)
            simpa using hne
          rw [List.filter_cons_of_neg (by simp [he]), hrest, List.countP_cons]
          cases p e.2 <;> simp
      · next he =>
          have := ih h hnd
          rw [List.filter_cons_of_pos (by simpa using he), List.countP_cons, List.countP_cons]
          omega

theorem mem_of_find {k : Nat} {v : α} {es : List (Nat × α)} (h : find k es = some v) :
    (k, v) ∈ es := by
  induction es with
  | nil => cases h
  | cons e es ih =>
      simp only [find] at h
      split at h
      · next he =>
          cases h
          rw [← he]
          exact List.mem_cons_self
      · exact List.mem_cons_of_mem e (ih h)

/-- With distinct keys, every entry is found by its key. -/
theorem Distinct.find_of_mem {es : List (Nat × α)} (hd : (es.map (·.1)).Nodup) {e : Nat × α}
    (he : e ∈ es) : find e.1 es = some e.2 := by
  induction es with
  | nil => cases he
  | cons x es ih =>
      obtain ⟨hmem, hnd⟩ := List.nodup_cons.mp hd
      simp only [find]
      rcases List.mem_cons.mp he with rfl | he'
      · rw [if_pos rfl]
      · have hne : x.1 ≠ e.1 := fun hk => hmem (List.mem_map.mpr ⟨e, he', hk.symm⟩)
        rw [if_neg hne, ih hnd he']

/-- Entries that agree on two properties count the same. -/
theorem Distinct.count_congr {t : Table α} (ht : t.Distinct) {p q : α → Bool}
    (h : ∀ k v, t.get? k = some v → p v = q v) : t.count p = t.count q := by
  refine List.countP_congr fun e he => ?_
  rw [h e.1 e.2 (Distinct.find_of_mem ht he)]

/-- Where nothing counts, no entry does. -/
theorem eq_false_of_count {t : Table α} {p : α → Bool} (h : t.count p = 0) {k : Nat} {v : α}
    (hv : t.get? k = some v) : p v = false := by
  have hm := List.countP_eq_zero.mp h (k, v) (mem_of_find hv)
  simpa using hm

end MediaHost.Table

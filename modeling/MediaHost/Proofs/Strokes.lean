import MediaHost.Picture.PixelBuffer

/-!
# Proofs — Strokes

The bytes that a copy of a frame writes, in their order (`Frame.strokes`).  No two of them are at
one place if the rows of the surface do not overlap, so what a copy leaves of a byte is told by the
byte's own place (`Frame.getElem_paint`): it is the frame's in the rectangle that both have in
common (`Frame.covers`), and what it was outside.
-/

namespace MediaHost

namespace Frame
variable {f : Frame} {s : Surface} {i n : Nat} {c : UInt8}

/-- How many rows are copied. -/
def rows (f : Frame) (s : Surface) : Nat := min f.size.height.toNat s.size.height.toNat

/-- How many pixels of each row are copied. -/
def columns (f : Frame) (s : Surface) : Nat := min f.size.width.toNat s.size.width.toNat

/-- Where the copy writes, and what, in its order. -/
def strokes (f : Frame) (s : Surface) : List (Nat × UInt8) :=
  (List.range (f.rows s)).flatMap fun y => (List.range (f.columns s)).flatMap fun x =>
    (List.range 4).map fun k => (y * s.stride.toNat + (4 * x + k), f.colour.channel k)

/-- The byte at `i` of a surface lies in the rectangle that it has in common with the frame. -/
def covers (f : Frame) (s : Surface) (i : Nat) : Bool :=
  i / s.stride.toNat < f.rows s && i % s.stride.toNat / 4 < f.columns s

theorem draw_eq_foldl {α : Type} (f : Frame) (s : Surface) (put : α → Nat → UInt8 → α) (a : α) :
    f.draw s put a = (f.strokes s).foldl (fun a w => put a w.1 w.2) a := by
  simp only [draw, strokes, List.foldl_flatMap, List.foldl_map]
  rfl

theorem mem_strokes : (i, c) ∈ f.strokes s ↔ ∃ y < f.rows s, ∃ x < f.columns s, ∃ k < 4,
    i = y * s.stride.toNat + (4 * x + k) ∧ c = f.colour.channel k := by
  simp only [strokes, List.mem_flatMap, List.mem_map, List.mem_range, Prod.mk.injEq,
    eq_comm (a := i), eq_comm (a := c)]

/-- A byte that is written is written as its place says, if rows do not overlap. -/
theorem of_mem_strokes (hrow : 4 * f.columns s ≤ s.stride.toNat) (h : (i, c) ∈ f.strokes s) :
    f.covers s i = true ∧ c = f.colour.channel (i % s.stride.toNat % 4) := by
  obtain ⟨y, hy, x, hx, k, hk, rfl, rfl⟩ := mem_strokes.mp h
  have hlt : 4 * x + k < s.stride.toNat := by omega
  have hdiv : (y * s.stride.toNat + (4 * x + k)) / s.stride.toNat = y := by
    rw [Nat.mul_comm, Nat.mul_add_div (by omega), Nat.div_eq_of_lt hlt, Nat.add_zero]
  have hmod : (y * s.stride.toNat + (4 * x + k)) % s.stride.toNat = 4 * x + k := by
    rw [Nat.mul_comm, Nat.mul_add_mod, Nat.mod_eq_of_lt hlt]
  have hplace : (4 * x + k) % 4 = k := by omega
  have hpixel : (4 * x + k) / 4 = x := by omega
  simp [covers, hdiv, hmod, hplace, hpixel, hy, hx]

/-- Every byte of the rectangle is written. -/
theorem mem_strokes_of_covers (h : f.covers s i = true) :
    (i, f.colour.channel (i % s.stride.toNat % 4)) ∈ f.strokes s := by
  simp only [covers, Bool.and_eq_true, decide_eq_true_eq] at h
  refine mem_strokes.mpr ⟨_, h.1, _, h.2, i % s.stride.toNat % 4, Nat.mod_lt _ (by decide), ?_, rfl⟩
  rw [Nat.div_add_mod, Nat.mul_comm, Nat.div_add_mod]

/-- What is left of a byte after writes that agree on it. -/
theorem getElem_foldl_set (ws : List (Nat × UInt8)) (v : Vector UInt8 n) (hi : i < n)
    (h : ∀ w ∈ ws, w.1 = i → w.2 = c) :
    (ws.foldl (fun v w => v.setIfInBounds w.1 w.2) v)[i] =
      if ∃ w ∈ ws, w.1 = i then c else v[i] := by
  induction ws generalizing v with
  | nil => simp
  | cons w ws ih =>
      rw [List.foldl_cons, ih _ fun u hu => h u (List.mem_cons_of_mem w hu),
        Vector.getElem_setIfInBounds hi]
      have hcons : (∃ u ∈ w :: ws, u.1 = i) ↔ w.1 = i ∨ ∃ u ∈ ws, u.1 = i := by
        simp only [List.mem_cons, or_and_right, exists_or, exists_eq_left]
      by_cases hw : w.1 = i
      · simp [hw, h w List.mem_cons_self hw]
      · simp only [hw, hcons, false_or, if_false]

/-- Writes a byte; outside the bytes there is nothing to write. -/
def write? (v : Option (Vector UInt8 n)) (i : Nat) (c : UInt8) : Option (Vector UInt8 n) :=
  v.bind fun v => if h : i < n then some (v.set i c h) else none

/-- A copy that only writes to where there are bytes is carried out. -/
theorem draw_write? (v : Vector UInt8 n) (h : ∀ w ∈ f.strokes s, w.1 < n) :
    f.draw s write? (some v) = some (f.paint s v) := by
  rw [paint, draw_eq_foldl, draw_eq_foldl]
  generalize f.strokes s = ws at h
  induction ws generalizing v with
  | nil => rfl
  | cons w ws ih =>
      have hw : w.1 < n := h w List.mem_cons_self
      have hset : v.set w.1 w.2 hw = v.setIfInBounds w.1 w.2 := by
        ext j hj
        rw [Vector.getElem_set, Vector.getElem_setIfInBounds hj]
      rw [List.foldl_cons, List.foldl_cons, write?, Option.bind_some, dif_pos hw, hset]
      exact ih _ fun u hu => h u (List.mem_cons_of_mem w hu)

/-- What a copy leaves of a byte. -/
theorem getElem_paint (hrow : 4 * f.columns s ≤ s.stride.toNat) (v : Vector UInt8 n)
    (hi : i < n) : (f.paint s v)[i] =
      if f.covers s i then f.colour.channel (i % s.stride.toNat % 4) else v[i] := by
  have hagree : ∀ w ∈ f.strokes s, w.1 = i → w.2 = f.colour.channel (i % s.stride.toNat % 4) := by
    rintro ⟨j, c⟩ hw rfl
    exact (of_mem_strokes hrow hw).2
  have hwritten : (∃ w ∈ f.strokes s, w.1 = i) ↔ f.covers s i = true := by
    constructor
    · rintro ⟨⟨j, c⟩, hw, rfl⟩
      exact (of_mem_strokes hrow hw).1
    · exact fun h => ⟨_, mem_strokes_of_covers h, rfl⟩
  simp only [paint, draw_eq_foldl, getElem_foldl_set _ v hi hagree, hwritten]

end Frame
end MediaHost

import MediaHost.Proofs.Orders
import Mathlib.Data.List.Induction

/-!
# Proofs — Slot

A pipeline that makes no frames of its own holds the one frame that is ready in a slot, which a push
overwrites, a grab takes and a close empties.  Nothing else that an engine can be asked touches it
(`Order.pending_effect`), so after any calls the slot has a frame exactly if the last call that
touched it was a push (`Order.pending_ordered`).  So a grab gives the newest frame that was pushed
after the grab and the close before (`Engine.grab_gives_newest`).
-/

namespace MediaHost

/-! ### What an order makes of a frame -/

namespace Pipeline
variable {p : Pipeline}

/-- A copy is remembered, and nothing else changes. -/
theorem blit_eq (p : Pipeline) (s : Surface) : ∃ blits, p.blit s = { p with blits := blits } := by
  simp only [blit]
  split
  · exact ⟨p.blits, rfl⟩
  · exact ⟨_, rfl⟩

theorem grab_none (p : Pipeline) : p.grab none = (p.begin.take.1, p.begin.take.2, none) := rfl

theorem ready?_none (p : Pipeline) :
    p.ready? none = p.pending.map fun f => ⟨p.crop.apply f.size, f.colour⟩ := rfl

end Pipeline

namespace Order
variable {o : Order} {p : Pipeline} {f : Frame} {x : Option Frame}

/-- The order is about the frame that is ready. -/
def touches : Order → Bool
  | .push _ | .grab | .close => true
  | _ => false

/-- The decoding that the order sets up. -/
def decoding? : Order → Option Decoding
  | .setupDecoding d => some d
  | _ => none

theorem handed_iff : o.handed x = some f ↔ o = .push f ∨ o.touches = false ∧ x = some f := by
  cases o <;> simp [handed, touches]

theorem pending_effect (o : Order) (p : Pipeline) :
    (o.effect none p).pending = o.handed p.pending := by
  cases o with
  | grab => exact Pipeline.pending_take p.begin
  | blit s => exact Pipeline.pending_blit s
  | stopEncoding =>
      rcases p.stopEncoding_cases with ⟨-, -, -, hq⟩ | hq <;> simp only [effect, hq, handed]
  | _ => rfl

theorem decoding_effect (o : Order) (p : Pipeline) :
    (o.effect none p).decoding = o.decoding?.or p.decoding := by
  cases o with
  | grab =>
      simp only [effect, Pipeline.grab_none, Pipeline.take]
      split <;> rfl
  | blit s =>
      obtain ⟨blits, hq⟩ := p.blit_eq s
      simp only [effect, hq, decoding?, Option.none_or]
  | stopEncoding =>
      rcases p.stopEncoding_cases with ⟨-, -, -, hq⟩ | hq <;> simp only [effect, hq] <;> rfl
  | _ => rfl

/-- Only a close or the next frame puts away the frame that was grabbed. -/
theorem grabbed_effect (hclose : o ≠ .close) (hgrab : o = .grab → p.pending = none) :
    (o.effect none p).grabbed = p.grabbed := by
  cases o with
  | close => exact absurd rfl hclose
  | grab =>
      have hnone : p.begin.pending = none := hgrab rfl
      simp only [effect, Pipeline.grab_none, Pipeline.take, hnone]
      rfl
  | blit s =>
      obtain ⟨blits, hq⟩ := p.blit_eq s
      simp only [effect, hq]
  | stopEncoding =>
      rcases p.stopEncoding_cases with ⟨-, -, -, hq⟩ | hq <;> simp only [effect, hq]
  | _ => rfl

end Order

/-! ### The slot after any orders -/

/-- The pipeline after the orders. -/
def Pipeline.ordered (auto : Option AutoFrames) (p : Pipeline) (os : List Order) : Pipeline :=
  os.foldl (fun p o => o.effect auto p) p

namespace Order
variable {o : Order} {os os' : List Order} {p : Pipeline} {f : Frame} {x : Option Frame}

/-- Of the pushes, grabs and closes, the last one pushed the frame. -/
def Waits (os : List Order) (f : Frame) : Prop := (os.filter touches).getLast? = some (.push f)

/-- The crop of the last decoding that was set up. -/
def crop (os : List Order) : Crop := ((os.filterMap decoding?).getLast?.map (·.crop)).getD .none

theorem waits_append : Waits (os ++ [o]) f ↔ o = .push f ∨ o.touches = false ∧ Waits os f := by
  simp only [Waits, List.filter_append, List.getLast?_append]
  cases ho : o.touches with
  | true => simp [ho]
  | false =>
      have hpush : o ≠ .push f := fun h => by simp [h, touches] at ho
      simp [ho, hpush]

theorem crop_append : crop (os ++ [o]) = (o.decoding?.map (·.crop)).getD (crop os) := by
  simp only [crop, List.filterMap_append, List.getLast?_append]
  cases ho : o.decoding? <;> simp [ho]

/-- A new pipeline has ready the frame that waits. -/
theorem pending_ordered (hp : p.pending = none) (os : List Order) :
    (p.ordered none os).pending = some f ↔ Waits os f := by
  induction os using List.reverseRecOn with
  | nil => simp [Pipeline.ordered, Waits, hp]
  | append_singleton os o ih =>
      rw [waits_append, ← ih, Pipeline.ordered, List.foldl_append]
      exact (pending_effect o _ ▸ handed_iff)

theorem crop_ordered (hp : p.decoding = none) (os : List Order) :
    (p.ordered none os).crop = crop os := by
  induction os using List.reverseRecOn with
  | nil => simp only [Pipeline.ordered, List.foldl_nil, Pipeline.crop, hp]; rfl
  | append_singleton os o ih =>
      rw [crop_append, ← ih, Pipeline.ordered, List.foldl_append]
      simp only [List.foldl_cons, List.foldl_nil, Pipeline.crop, decoding_effect]
      cases o.decoding? <;> rfl

/-- What waits after a grab was pushed after it. -/
theorem waits_of_grab : Waits (os ++ .grab :: os') f ↔ Waits os' f := by
  have hgrab : touches .grab = true := rfl
  simp only [Waits, List.filter_append, List.filter_cons_of_pos hgrab, List.getLast?_append,
    List.getLast?_cons]
  cases (os'.filter touches).getLast? <;> simp

theorem not_waits (h : ∀ f, .push f ∉ os) (f : Frame) : ¬Waits os f := fun hw =>
  h f (List.mem_filter.mp (List.mem_of_getLast? hw)).1

end Order

/-! ### What a call makes of a pipeline -/

/-- What the call asks of the pipeline `k`. -/
def Ask.order? (k : Nat) : Ask → Option Order
  | .order j o => if j = k then some o else none
  | _ => none

theorem Ask.order?_eq_some {k : Nat} {a : Ask} {o : Order} :
    a.order? k = some o ↔ a = .order k o := by
  cases a with
  | order j o' =>
      simp only [order?, Option.ite_none_right_eq_some, Option.some.injEq, order.injEq]
  | _ => simp [order?]

namespace Engine
variable {e : Engine} {a : Ask} {as more : List Ask} {k : Nat} {p : Pipeline} {g : Frame}

/-- What the calls ask of the pipeline `k`. -/
def ordersTo (k : Nat) (as : List Ask) : List Order := as.filterMap (·.order? k)

theorem ordersTo_cons (k : Nat) (a : Ask) (as : List Ask) :
    ordersTo k (a :: as) = (a.order? k).toList ++ ordersTo k as := by
  simp only [ordersTo, List.filterMap_cons]
  cases a.order? k <;> rfl

theorem ordersTo_append (k : Nat) (as bs : List Ask) :
    ordersTo k (as ++ bs) = ordersTo k as ++ ordersTo k bs := List.filterMap_append

/-- A pipeline that was made is changed by what is asked of it, until it is destroyed. -/
theorem get?_carry (hold : k < e.nextId) (h : a ≠ .destroy k) :
    (a.carry e).1.pipelines.get? k =
        (e.pipelines.get? k).map (·.ordered e.autoFrames (a.order? k).toList) ∧
      k < (a.carry e).1.nextId := by
  have hsame : (e.pipelines.get? k).map (·.ordered e.autoFrames []) = e.pipelines.get? k :=
    Option.map_id_fun' ▸ rfl
  cases a with
  | startUp levels forwardsLog =>
      simp only [Ask.carry, startUp]
      split <;> exact ⟨hsame.symm, hold⟩
  | shutDown => exact ⟨hsame.symm, hold⟩
  | create name callbacks userdata =>
      rcases create_cases name callbacks userdata e k with ⟨hp, hn⟩ | ⟨hn, hp⟩
      · exact ⟨hp.trans hsame.symm, hn.symm ▸ hold⟩
      · rw [if_neg (Nat.ne_of_gt hold)] at hp
        exact ⟨hp.trans hsame.symm, by simp only [Ask.carry, hn]; omega⟩
  | destroy j =>
      have hj : j ≠ k := fun hj => h (hj ▸ rfl)
      exact ⟨((Table.get?_erase ..).trans (if_neg hj)).trans hsame.symm, hold⟩
  | order j o =>
      have ha := o.alters_carry j e
      have hn : (o.carry j e).1.nextId = e.nextId := congrArg Inventory.nextId ha.inventory
      refine ⟨(ha.pipeline k).trans ?_, Nat.lt_of_lt_of_eq hold hn.symm⟩
      by_cases hj : j = k
      · simp only [Ask.order?, hj, if_true]
        rfl
      · simp only [Ask.order?, hj, if_false]
        exact hsame.symm

theorem get?_after (hold : k < e.nextId) (h : .destroy k ∉ as) :
    (e.after as).pipelines.get? k =
        (e.pipelines.get? k).map (·.ordered e.autoFrames (ordersTo k as)) ∧
      k < (e.after as).nextId ∧ (e.after as).autoFrames = e.autoFrames := by
  induction as generalizing e with
  | nil => exact ⟨Option.map_id_fun' ▸ rfl, hold, rfl⟩
  | cons a as ih =>
      obtain ⟨hp, hold'⟩ := get?_carry hold fun ha : a = .destroy k => h (ha ▸ List.mem_cons_self)
      have hauto := e.autoFrames_carry a
      obtain ⟨hp', hn, hauto'⟩ := ih hold' fun hmem => h (List.mem_cons_of_mem a hmem)
      refine ⟨hp'.trans ?_, hn, hauto'.trans hauto⟩
      rw [hp, hauto, Option.map_map, ordersTo_cons]
      simp only [Pipeline.ordered, List.foldl_append, Function.comp_def]

/-- What a grab and a copy answer for a pipeline that makes no frames of its own. -/
theorem grab_of_get? (hauto : e.autoFrames = none) (hp : e.pipelines.get? k = some p) :
    (e.grab k).2.1 = p.pending.map fun f => p.crop.apply f.size := by
  rw [(e.grab_spec k).1, ready?, hp, Option.bind_some, hauto, Pipeline.ready?_none, Option.map_map]
  rfl

/-- The engine has just made the pipeline `k`, and makes no frames of its own. -/
structure Opens (k : Nat) (e : Engine) : Prop where
  auto : e.autoFrames = none
  old : k < e.nextId
  new : ∃ p, e.pipelines.get? k = some p ∧ p.pending = none ∧ p.decoding = none ∧ p.grabbed = none

theorem opens_create {name : String} {callbacks : Callbacks} {userdata : Nat} {e' : Engine}
    (hauto : e.autoFrames = none) (h : e.create name callbacks userdata = (e', some k)) :
    Opens k e' := by
  simp only [create] at h
  split at h
  · cases h
  · cases h
    exact ⟨hauto, Nat.lt_succ_self _, _, (Table.get?_set ..).trans (if_pos rfl), rfl, rfl, rfl⟩

/-- A grab gives the frame that waits, cropped. -/
theorem Opens.grab_iff (h : Opens k e) (hlive : .destroy k ∉ as) (size : Size) :
    ((e.after as).grab k).2.1 = some size ↔ ∃ f, Order.Waits (ordersTo k as) f ∧
      size = (Order.crop (ordersTo k as)).apply f.size := by
  obtain ⟨p, hp, hpending, hdecoding, -⟩ := h.new
  obtain ⟨hget, -, hauto⟩ := get?_after h.old hlive
  rw [hp, Option.map_some, h.auto] at hget
  rw [grab_of_get? (hauto.trans h.auto) hget, Option.map_eq_some_iff]
  simp only [Order.pending_ordered hpending, Order.crop_ordered hdecoding, eq_comm]

/-- Calls that do not close the pipeline, and whose grabs of it give nothing. -/
structure Keeps (k : Nat) (e : Engine) (as : List Ask) : Prop where
  not_closed : .order k .close ∉ as
  no_frame : ∀ front rest, as = front ++ .order k .grab :: rest →
    ((e.after front).grab k).2.1 = none

theorem Keeps.tail (h : Keeps k e (a :: as)) : Keeps k (a.carry e).1 as :=
  ⟨fun hmem => h.not_closed (List.mem_cons_of_mem a hmem),
    fun front rest heq => h.no_frame (a :: front) rest (heq ▸ rfl)⟩

/-- Such calls leave the frame that was grabbed. -/
theorem Keeps.grabbed (h : Keeps k e as) (hauto : e.autoFrames = none) (hold : k < e.nextId)
    (hlive : .destroy k ∉ as) (hp : e.pipelines.get? k = some p) (hg : p.grabbed = some g) :
    ∃ q, (e.after as).pipelines.get? k = some q ∧ q.grabbed = some g := by
  induction as generalizing e p with
  | nil => exact ⟨p, hp, hg⟩
  | cons a as ih =>
      obtain ⟨hp', hold'⟩ :=
        get?_carry hold fun ha : a = .destroy k => hlive (ha ▸ List.mem_cons_self)
      rw [hp, Option.map_some, hauto] at hp'
      refine ih h.tail ((e.autoFrames_carry a).trans hauto) hold'
        (fun hmem => hlive (List.mem_cons_of_mem a hmem)) hp' ?_
      cases ho : a.order? k with
      | none => exact hg
      | some o =>
          obtain rfl := Ask.order?_eq_some.mp ho
          refine (Order.grabbed_effect (fun hc => ?_) fun hgrab => ?_).trans hg
          · exact h.not_closed (hc ▸ List.mem_cons_self)
          · have hnone := h.no_frame [] as (by rw [hgrab]; rfl)
            rw [after, List.foldl_nil, grab_of_get? hauto hp] at hnone
            exact Option.map_eq_none_iff.mp hnone

/-- The copies after a grab that gave a frame are made from it. -/
theorem Opens.blit_eq (h : Opens k e) (hlive : .destroy k ∉ as) (hlive' : .destroy k ∉ more)
    {f : Frame} (hf : Order.Waits (ordersTo k as) f)
    (hkeeps : Keeps k (e.after (as ++ [.order k .grab])) more) (s : Surface) :
    ((e.after (as ++ .order k .grab :: more)).blit k s).2 =
      some ⟨(Order.crop (ordersTo k as)).apply f.size, f.colour⟩ := by
  obtain ⟨p, hp, hpending, hdecoding, -⟩ := h.new
  obtain ⟨hget, hold, hauto⟩ := get?_after h.old hlive
  rw [hp, Option.map_some, h.auto] at hget
  have hauto' := hauto.trans h.auto
  have hready : (p.ordered none (ordersTo k as)).ready? none =
      some ⟨(Order.crop (ordersTo k as)).apply f.size, f.colour⟩ := by
    rw [Pipeline.ready?_none, (Order.pending_ordered hpending _).mpr hf,
      Order.crop_ordered hdecoding]
    rfl
  obtain ⟨-, hgrabbed⟩ := (Pipeline.grab_spec _ none).2.2 _ hready
  have hafter : e.after (as ++ [.order k .grab]) = ((e.after as).grab k).1 := by
    rw [after_append]
    rfl
  have hget' := ((e.after as).grab_spec k).2
  rw [hget, Option.map_some, hauto', ← hafter] at hget'
  have hcarry := get?_carry (a := .order k .grab) hold nofun
  have hkept := hkeeps.grabbed ((congrArg Engine.autoFrames hafter).trans
    (((e.after as).autoFrames_carry (.order k .grab)).trans hauto')) (hafter ▸ hcarry.2) hlive'
    hget' hgrabbed
  obtain ⟨q, hq, hg⟩ := hkept
  rw [List.append_cons, after_append]
  simp only [blit, hq, Option.bind_some, hg]

theorem Opens.grab_after_grab (h : Opens k e) (hlive : .destroy k ∉ as)
    (hlive' : .destroy k ∉ more) {size : Size}
    (hsize : ((e.after (as ++ .order k .grab :: more)).grab k).2.1 = some size) :
    ∃ f, Order.Waits (ordersTo k more) f ∧
      size = (Order.crop (ordersTo k (as ++ .order k .grab :: more))).apply f.size := by
  have hall : .destroy k ∉ as ++ .order k .grab :: more := by simp [hlive, hlive']
  obtain ⟨f, hf, hcropped⟩ := (h.grab_iff hall size).mp hsize
  have hgrab : ordersTo k (.order k .grab :: more) = .grab :: ordersTo k more := by
    simp [ordersTo_cons, Ask.order?]
  refine ⟨f, ?_, hcropped⟩
  rw [ordersTo_append, hgrab, Order.waits_of_grab] at hf
  exact hf

/-- Media set up with a crop, and two frames of it. -/
def twoPushes : List Ask :=
  [.order 1 (.setupDecoding ⟨"file:///clip.mp4", 0, 0, none, 0,
      { left := ⟨0x3e800000⟩, right := ⟨0x3e800000⟩, bottom := ⟨0x3f000000⟩ }⟩),
    .order 1 .play, .order 1 (.push ⟨⟨400, 200⟩, ⟨255, 0, 0, 255⟩⟩),
    .order 1 (.push ⟨⟨8, 4⟩, ⟨0, 0, 255, 255⟩⟩)]

/-- From the making of a pipeline on, whatever the engine is asked, as long as the pipeline is not
destroyed: a grab gives a size exactly if the last push, grab or close of the pipeline pushed a
frame, and it is the size of that frame in the crop of the last decoding that was set up; copies are
made of that frame in its colour until a close or another frame.  So what a grab gives was pushed
after the grab before it, and without a push in between it gives nothing. -/
theorem grab_gives_newest {e₀ : Engine} {name : String} {callbacks : Callbacks} {userdata : Nat}
    (hauto : e₀.autoFrames = none) (hmade : e₀.create name callbacks userdata = (e, some k)) :
    (∀ as, .destroy k ∉ as → ∀ size, ((e.after as).grab k).2.1 = some size ↔
      ∃ f, Order.Waits (ordersTo k as) f ∧ size = (Order.crop (ordersTo k as)).apply f.size) ∧
    (∀ as more f, .destroy k ∉ as → .destroy k ∉ more → Order.Waits (ordersTo k as) f →
      Keeps k (e.after (as ++ [.order k .grab])) more → ∀ s,
      ((e.after (as ++ .order k .grab :: more)).blit k s).2 =
        some ⟨(Order.crop (ordersTo k as)).apply f.size, f.colour⟩) ∧
    (∀ as more, .destroy k ∉ as → .destroy k ∉ more → ∀ size,
      ((e.after (as ++ .order k .grab :: more)).grab k).2.1 = some size →
        ∃ f, Order.Waits (ordersTo k more) f ∧
          size = (Order.crop (ordersTo k (as ++ .order k .grab :: more))).apply f.size) ∧
    ∀ as more, .destroy k ∉ as → .destroy k ∉ more → (∀ f, .order k (.push f) ∉ more) →
      ((e.after (as ++ .order k .grab :: more)).grab k).2.1 = none := by
  have h := opens_create hauto hmade
  refine ⟨fun _ hlive => h.grab_iff hlive,
    fun _ _ _ hlive hlive' hf hkeeps => h.blit_eq hlive hlive' hf hkeeps,
    fun _ _ hlive hlive' size hsize => h.grab_after_grab hlive hlive' hsize,
    fun as more hlive hlive' hpush => ?_⟩
  refine Option.eq_none_iff_forall_ne_some.mpr fun size hsize => ?_
  obtain ⟨f, hf, -⟩ := h.grab_after_grab hlive hlive' hsize
  refine Order.not_waits (fun f' hmem => ?_) f hf
  obtain ⟨a, ha, ho⟩ := List.mem_filterMap.mp hmem
  exact hpush f' (Ask.order?_eq_some.mp ho ▸ ha)

/-- Of two frames that were pushed, the newer one is given, cropped, and once. -/
theorem newer_frame_given :
    ∃ e, ({} : Engine).create "clip" .all 1 = (e, some 1) ∧
      ((e.after twoPushes).grab 1).2.1 = some ⟨4, 2⟩ ∧
      ((e.after (twoPushes ++ [.order 1 .grab])).grab 1).2.1 = none ∧
      ((e.after (twoPushes ++ [.order 1 .grab])).blit 1 ⟨⟨4, 2⟩, 16⟩).2 =
        some ⟨⟨4, 2⟩, ⟨0, 0, 255, 255⟩⟩ := by
  have hmade : ({} : Engine).create "clip" .all 1 =
      ((({} : Engine).create "clip" .all 1).1, some 1) := rfl
  have hlive : .destroy 1 ∉ twoPushes := by simp [twoPushes]
  have hwaits : Order.Waits (ordersTo 1 twoPushes) ⟨⟨8, 4⟩, ⟨0, 0, 255, 255⟩⟩ := rfl
  have hsize : (Order.crop (ordersTo 1 twoPushes)).apply ⟨8, 4⟩ = ⟨4, 2⟩ := by decide +kernel
  obtain ⟨hgrab, hblit, -, hnone⟩ := grab_gives_newest rfl hmade
  refine ⟨_, hmade, (hgrab _ hlive _).mpr ⟨_, hwaits, hsize.symm⟩,
    hnone _ [] hlive (by simp) (by simp), ?_⟩
  rw [hblit _ [] _ hlive (by simp) hwaits ⟨by simp, by simp⟩]
  exact congrArg (fun size => some (Frame.mk size _)) hsize

end Engine
end MediaHost

import MediaHost.Proofs.Canvas
import MediaHost.Proofs.Ledger

/-!
# Proofs — Orders

Everything that an engine can be asked, in any order (`Ask`), and what comes of it for one
pipeline.  Four orders arm the end of its stream (`Order.arms`), two may report it.  An engine that
is not armed again has one report left at most (`Engine.left`), and every report takes it
(`Engine.reports_add_left`).  What a pipeline has ready was handed to it (`Engine.handed_after`), if
it did not make it itself.
-/

namespace MediaHost

/-- What one pipeline can be asked. -/
inductive Order
  | setupDecoding (d : Decoding)
  | setupEncoding (enc : Encoding)
  | play
  | pause
  | stop
  | close
  | isLoaded
  | isPlaying
  | grab
  | blit (s : Surface)
  | consume (data : Array UInt8)
  | stopEncoding
  | duration
  | position
  | setPosition (seconds : Double)
  | setBaseTime (time : UInt64)
  | setVolume (volume : Double)
  | setBitrateLimit (limit : Single)
  /-- A decoded frame is handed over. -/
  | push (f : Frame)

/-- What an engine can be asked. -/
inductive Ask
  | startUp (levels : Option String) (forwardsLog : Bool)
  | shutDown
  | create (name : String) (callbacks : Callbacks) (userdata : Nat)
  | destroy (id : Nat)
  | order (id : Nat) (o : Order)

/-! ### What a pipeline makes of it -/

namespace Order

/-- The end of the stream may be reported once more. -/
def arms : Order → Bool
  | .setupDecoding _ | .setupEncoding _ | .stop | .setPosition _ => true
  | _ => false

/-- The order carried out, with the callbacks that it starts. -/
def carry (k : Nat) (e : Engine) : Order → Engine × List Callback
  | .setupDecoding d => e.setupDecoding k d
  | .setupEncoding enc => (e.setupEncoding k enc, [])
  | .play => (e.play k, [])
  | .pause => (e.pause k, [])
  | .stop => (e.stop k, [])
  | .close => (e.close k, [])
  | .isLoaded => ((e.isLoaded k).1, [])
  | .isPlaying => ((e.isPlaying k).1, [])
  | .grab => ((e.grab k).1, (e.grab k).2.2)
  | .blit s => ((e.blit k s).1, [])
  | .consume data => (e.consume k data, [])
  | .stopEncoding => e.stopEncoding k
  | .duration => ((e.durationOf k).1, [])
  | .position => ((e.positionOf k).1, [])
  | .setPosition seconds => (e.setPosition k seconds, [])
  | .setBaseTime time => (e.setBaseTime k time, [])
  | .setVolume volume => (e.setVolume k volume, [])
  | .setBitrateLimit limit => (e.setBitrateLimit k limit, [])
  | .push f => (e.push k f, [])

/-- What the order makes of the pipeline. -/
def effect (auto : Option AutoFrames) (p : Pipeline) : Order → Pipeline
  | .setupDecoding d => p.setupDecoding d
  | .setupEncoding enc => p.setupEncoding enc
  | .play => p.play
  | .pause => p.pause
  | .stop => p.stop
  | .close => p.close
  | .grab => (p.grab auto).1
  | .blit s => p.blit s
  | .consume data => p.consume data
  | .stopEncoding => p.stopEncoding.1
  | .setPosition seconds => p.setPosition seconds
  | .setBaseTime time => { p with baseTime := time }
  | .setVolume volume => { p with volume := volume }
  | .setBitrateLimit limit => { p with bitrateLimit := limit }
  | .push f => p.push f
  | .isLoaded | .isPlaying | .duration | .position => p

/-- What the engine has to tell the pipeline's owner of it. -/
def event (auto : Option AutoFrames) (p : Pipeline) : Order → Option Event
  | .setupDecoding d =>
    if Pipeline.namesResource d.uri.toList then none else some (Pipeline.openFailure d.uri)
  | .grab => (p.grab auto).2.2
  | .stopEncoding => p.stopEncoding.2
  | _ => none

/-- The frame that was handed over and not grabbed, if it was `f` before. -/
def handed (f : Option Frame) : Order → Option Frame
  | .push g => some g
  | .grab | .close => none
  | _ => f

/-- How many ends of the stream the order reports. -/
def reports (k : Nat) (e : Engine) (o : Order) : Nat :=
  (o.carry k e).2.countP fun c => c.event = .finished

end Order

namespace Pipeline
variable {p : Pipeline} {auto : Option AutoFrames}

/-- A source that may go on ends at the end of the media, and makes a frame before it. -/
theorem produce_cases (p : Pipeline) (auto : Option AutoFrames) :
    p.produce auto = (p, false) ∨ ∃ a, auto = some a ∧ p.pending = none ∧ p.endSent = false ∧
      p.playing = true ∧
      (p.duration.le p.position = true ∧ p.produce auto = ({ p with endSent := true }, true) ∨
       p.duration.le p.position = false ∧ p.produce auto = ({ p with
          position := p.position.add a.step
          pending := some ⟨a.size, autoColour p.framesGrabbed⟩ }, false)) := by
  cases auto with
  | none => exact .inl rfl
  | some a =>
      by_cases hc : (p.pending.isNone && p.playing && !p.endSent) = true
      · have hready : p.pending = none ∧ p.endSent = false ∧ p.playing = true := by
          simp only [Bool.and_eq_true, Option.isNone_iff_eq_none, Bool.not_eq_true'] at hc
          exact ⟨hc.1.1, hc.2, hc.1.2⟩
        refine .inr ⟨a, rfl, hready.1, hready.2.1, hready.2.2, ?_⟩
        simp only [produce, hc, if_true]
        cases hle : p.duration.le p.position with
        | true => exact .inl ⟨rfl, rfl⟩
        | false => exact .inr ⟨rfl, rfl⟩
      · exact .inl (by simp only [produce, hc]; rfl)

theorem endSent_take (p : Pipeline) : p.take.1.endSent = p.endSent := by
  simp only [take]
  split <;> rfl

theorem pending_take (p : Pipeline) : p.take.1.pending = none := by
  simp only [take]
  split
  · assumption
  · rfl

/-- A grab reports the end of a stream that was not reported, or leaves alone whether it was. -/
theorem grab_cases (p : Pipeline) (auto : Option AutoFrames) :
    p.endSent = false ∧ (p.grab auto).1.endSent = true ∧ (p.grab auto).1.pending = none ∧
      (p.grab auto).2.2 = some .finished ∨
    (p.grab auto).1.endSent = p.endSent ∧ (p.grab auto).1.pending = none ∧
      (p.grab auto).2.2 ≠ some .finished := by
  have htaken : ∀ q : Pipeline, p.begin.produce auto = (q, false) → q.endSent = p.endSent →
      (p.grab auto).1.endSent = p.endSent ∧ (p.grab auto).1.pending = none ∧
        (p.grab auto).2.2 ≠ some .finished := by
    intro q hq hsent
    simp only [grab, hq]
    refine ⟨(endSent_take q).trans hsent, pending_take q, ?_⟩
    simp only [Bool.false_eq_true, if_false]
    split <;> simp
  rcases p.begin.produce_cases auto with hq | ⟨a, -, hpending, hsent, -, ⟨-, hq⟩ | ⟨-, hq⟩⟩
  · exact .inr (htaken _ hq rfl)
  · refine .inl ⟨hsent, ?_⟩
    simp only [grab, hq, if_true]
    exact ⟨trivial, hpending, trivial⟩
  · exact .inr (htaken _ hq rfl)

/-- What is ready after the end was reported was handed over. -/
theorem ready?_of_ended (h : p.endSent = true) :
    p.ready? auto = p.pending.map fun f => ⟨p.crop.apply f.size, f.colour⟩ := by
  have hsent : p.begin.endSent = true := h
  rcases p.begin.produce_cases auto with hq | ⟨-, -, -, hnot, -⟩
  · simp only [ready?, hq]
    rfl
  · rw [hsent] at hnot
    cases hnot

/-- An end is reported of loaded media that plays. -/
theorem stopEncoding_cases (p : Pipeline) :
    p.endSent = false ∧ p.loaded = true ∧ p.playing = true ∧
      p.stopEncoding = ({ p with endSent := true }, some .finished) ∨
    p.stopEncoding = (p, none) := by
  simp only [stopEncoding]
  split
  · exact .inr rfl
  · next h =>
      simp only [Bool.or_eq_true, Bool.not_eq_true', not_or, Bool.not_eq_true, Bool.not_eq_false,
        Bool.and_eq_true] at h
      exact .inl ⟨h.1, h.2.1, h.2.2, rfl⟩

theorem endSent_blit (s : Surface) : (p.blit s).endSent = p.endSent := by
  simp only [blit]
  split <;> rfl

theorem pending_blit (s : Surface) : (p.blit s).pending = p.pending := by
  simp only [blit]
  split <;> rfl

end Pipeline

namespace Order
variable {o : Order} {k : Nat} {e : Engine} {p : Pipeline} {auto : Option AutoFrames}

theorem alters_asked (call : Call) (hc : (Request.call k call).isMilestone = false) (e : Engine) :
    Engine.Alters k id e (e.asked (.call k call)) := by
  refine ⟨Engine.inventory_asked hc, fun j => ?_⟩
  rw [Option.map_id, id, ite_self]
  rfl

/-- An order concerns its pipeline only. -/
theorem alters_carry (k : Nat) (e : Engine) (o : Order) :
    Engine.Alters k (o.effect e.autoFrames ·) e (o.carry k e).1 := by
  cases o with
  | setupDecoding d => exact Engine.alters_setupDecoding d
  | setupEncoding enc => exact Engine.alters_setupEncoding enc
  | play => exact Engine.alters_play
  | pause => exact Engine.alters_pause
  | stop => exact Engine.alters_stop
  | close => exact Engine.alters_close
  | isLoaded => exact alters_asked .isLoaded rfl e
  | isPlaying => exact alters_asked .isPlaying rfl e
  | grab => exact Engine.alters_grab
  | blit s => exact Engine.alters_blit s
  | consume data => exact Engine.alters_consume data
  | stopEncoding => exact Engine.alters_stopEncoding
  | duration => exact alters_asked .duration rfl e
  | position => exact alters_asked .position rfl e
  | setPosition seconds => exact Engine.alters_setPosition seconds
  | setBaseTime time => exact Engine.alters_setBaseTime time
  | setVolume volume => exact Engine.alters_setVolume volume
  | setBitrateLimit limit => exact Engine.alters_setBitrateLimit limit
  | push f => exact Engine.alters_push f

/-- Only an order that arms the end takes back that it was reported. -/
theorem endSent_effect (ha : o.arms = false) (h : p.endSent = true) :
    (o.effect auto p).endSent = true := by
  cases o with
  | setupDecoding | setupEncoding | stop | setPosition => cases ha
  | grab =>
      rcases p.grab_cases auto with ⟨-, hsent, -⟩ | ⟨hsent, -⟩
      · exact hsent
      · exact hsent.trans h
  | blit s => exact (Pipeline.endSent_blit s).trans h
  | stopEncoding =>
      rcases p.stopEncoding_cases with ⟨-, -, -, hq⟩ | hq
      · simp only [effect, hq]
      · simp only [effect, hq, h]
  | _ => exact h

/-- What is ready between orders was handed over. -/
theorem handed_effect {x : Option Frame} (h : ∀ f, p.pending = some f → x = some f) :
    ∀ f, (o.effect auto p).pending = some f → o.handed x = some f := by
  intro f hf
  cases o with
  | push g => exact hf
  | grab =>
      have hnone : (p.grab auto).1.pending = none := by
        rcases p.grab_cases auto with ⟨-, -, hnone, -⟩ | ⟨-, hnone, -⟩ <;> exact hnone
      simp only [effect, hnone] at hf
      cases hf
  | close => cases hf
  | blit s => exact h f ((Pipeline.pending_blit s).symm.trans hf)
  | stopEncoding =>
      rcases p.stopEncoding_cases with ⟨-, -, -, hq⟩ | hq
      · simp only [effect, hq] at hf
        exact h f hf
      · simp only [effect, hq] at hf
        exact h f hf
  | _ => exact h f hf

/-- The callbacks that an order starts tell of its event. -/
theorem calls_carry (k : Nat) (e : Engine) (o : Order) : (o.carry k e).2 =
    ((e.pipelines.get? k).bind fun p => (o.event e.autoFrames p).bind p.callback).toList := by
  cases o with
  | setupDecoding d =>
      simp only [carry, Engine.setupDecoding, event]
      split
      · cases e.pipelines.get? k <;> rfl
      · simp only [Engine.callbackOf, Engine.change, Engine.asked, Table.get?_modify, if_true]
        cases e.pipelines.get? k <;> rfl
  | grab =>
      simp only [carry, Engine.grab, event]
      cases e.pipelines.get? k <;> rfl
  | stopEncoding =>
      simp only [carry, Engine.stopEncoding, event]
      cases e.pipelines.get? k <;> rfl
  | _ => cases e.pipelines.get? k <;> rfl

/-- The end of a stream is told of if it was not reported before, and then it was. -/
theorem endSent_of_event (h : o.event auto p = some .finished) :
    o.arms = false ∧ p.endSent = false ∧ (o.effect auto p).endSent = true := by
  cases o with
  | setupDecoding d =>
      simp only [event] at h
      split at h <;> cases h
  | grab =>
      rcases p.grab_cases auto with ⟨hnot, hsent, -⟩ | ⟨-, -, hev⟩
      · exact ⟨rfl, hnot, hsent⟩
      · exact absurd h hev
  | stopEncoding =>
      rcases p.stopEncoding_cases with ⟨hnot, -, -, hq⟩ | hq
      · exact ⟨rfl, hnot, by simp only [effect, hq]⟩
      · simp only [event, hq] at h
        cases h
  | _ => cases h

/-- An order that reports the end finds that it was not reported, and leaves that it was. -/
theorem reports_spec (k : Nat) (e : Engine) (o : Order) :
    o.reports k e = 0 ∨ o.reports k e = 1 ∧ ∃ p, e.pipelines.get? k = some p ∧
      p.endSent = false ∧ (o.effect e.autoFrames p).endSent = true := by
  simp only [reports, calls_carry]
  cases hp : e.pipelines.get? k with
  | none => exact .inl rfl
  | some p =>
      simp only [Option.bind_some]
      cases hev : o.event e.autoFrames p with
      | none => exact .inl rfl
      | some ev =>
          simp only [Option.bind_some, Pipeline.callback]
          by_cases hfin : ev = .finished
          · obtain ⟨-, hnot, hsent⟩ := endSent_of_event (hfin ▸ hev)
            split
            · exact .inr ⟨by simp [hfin], p, rfl, hnot, hsent⟩
            · exact .inl rfl
          · refine .inl ?_
            split <;> simp [hfin]

end Order

/-! ### Any number of engine calls -/

namespace Ask

def carry (e : Engine) : Ask → Engine × List Callback
  | .startUp levels forwardsLog => ((e.startUp levels forwardsLog).1, [])
  | .shutDown => (e.shutDown, [])
  | .create name callbacks userdata => ((e.create name callbacks userdata).1, [])
  | .destroy k => (e.destroy k, [])
  | .order k o => o.carry k e

/-- The end of the stream of pipeline `k` may be reported once more. -/
def arms (k : Nat) : Ask → Bool
  | .order j o => j = k && o.arms
  | _ => false

/-- How many ends of the stream of pipeline `k` are reported. -/
def reports (k : Nat) (e : Engine) : Ask → Nat
  | .order j o => if j = k then o.reports k e else 0
  | _ => 0

/-- The frame that was handed to the pipeline `k` and not grabbed. -/
def handed (k : Nat) (f : Option Frame) : Ask → Option Frame
  | .order j o => if j = k then o.handed f else f
  | _ => f

end Ask

namespace Engine
variable {e : Engine} {a : Ask} {as : List Ask} {k : Nat} {x : Option Frame}

def after (e : Engine) (as : List Ask) : Engine := as.foldl (fun e a => (a.carry e).1) e

theorem after_append (e : Engine) (as bs : List Ask) :
    e.after (as ++ bs) = (e.after as).after bs := List.foldl_append

/-- The frame that the calls handed to pipeline `k` last, if it was not grabbed or dropped. -/
def handed (k : Nat) (as : List Ask) : Option Frame := as.foldl (fun x a => a.handed k x) none

/-- How many ends of the stream of pipeline `k` are reported by the calls. -/
def reports (k : Nat) : Engine → List Ask → Nat
  | _, [] => 0
  | e, a :: as => a.reports k e + reports k (a.carry e).1 as

/-- How many ends of the stream of pipeline `k` can be reported before it is armed again. -/
def left (k : Nat) (e : Engine) : Nat :=
  match e.pipelines.get? k with
  | some p => if p.endSent then 0 else 1
  | none => if k < e.nextId then 0 else 1

/-- No pipeline has a number that was not given out, and what pipeline `k` has ready was handed to
it. -/
structure Kept (k : Nat) (x : Option Frame) (e : Engine) : Prop where
  young : e.nextId ≤ k → e.pipelines.get? k = none
  handed : ∀ p f, e.pipelines.get? k = some p → p.pending = some f → x = some f

theorem autoFrames_carry (e : Engine) (a : Ask) : (a.carry e).1.autoFrames = e.autoFrames := by
  cases a with
  | startUp => simp only [Ask.carry, startUp]; split <;> rfl
  | create => simp only [Ask.carry, create]; split <;> rfl
  | order k o =>
      cases o with
      | grab => simp only [Ask.carry, Order.carry, grab]; split <;> rfl
      | stopEncoding => simp only [Ask.carry, Order.carry, stopEncoding]; split <;> rfl
      | _ => rfl
  | _ => rfl

theorem left_congr {e' : Engine} (hp : e'.pipelines.get? k = e.pipelines.get? k)
    (hn : e'.nextId = e.nextId) : e'.left k = e.left k := by
  simp only [left, hp, hn]

theorem left_le_one (k : Nat) (e : Engine) : e.left k ≤ 1 := by
  simp only [left]
  split <;> split <;> decide

theorem Kept.congr {e' : Engine} (h : Kept k x e)
    (hp : e'.pipelines.get? k = e.pipelines.get? k) (hn : e.nextId ≤ e'.nextId) :
    Kept k x e' :=
  ⟨fun hk => hp.trans (h.young (Nat.le_trans hn hk)), fun p f hget => h.handed p f (hp ▸ hget)⟩

/-- What a call that makes a pipeline makes of the pipeline `k`. -/
theorem create_cases (name : String) (callbacks : Callbacks) (userdata : Nat) (e : Engine)
    (k : Nat) :
    ((e.create name callbacks userdata).1.pipelines.get? k = e.pipelines.get? k ∧
      (e.create name callbacks userdata).1.nextId = e.nextId) ∨
    (e.create name callbacks userdata).1.nextId = e.nextId + 1 ∧
      (e.create name callbacks userdata).1.pipelines.get? k =
        if e.nextId = k then
          some { name := name, userdata := userdata, callbacks := callbacks,
                 duration := e.duration }
        else e.pipelines.get? k := by
  simp only [create]
  split
  · exact .inl ⟨rfl, rfl⟩
  · exact .inr ⟨rfl, Table.get?_set ..⟩

theorem Kept.carry (h : Kept k x e) (a : Ask) : Kept k (a.handed k x) (a.carry e).1 := by
  cases a with
  | startUp levels forwardsLog =>
      simp only [Ask.carry, startUp]
      split <;> exact h.congr rfl (Nat.le_refl _)
  | shutDown => exact h.congr rfl (Nat.le_refl _)
  | create name callbacks userdata =>
      rcases create_cases name callbacks userdata e k with ⟨hp, hn⟩ | ⟨hn, hp⟩
      · exact h.congr hp (Nat.le_of_eq hn.symm)
      · split at hp
        · next hk =>
            refine ⟨fun hle => ?_, fun p f hget hf => ?_⟩
            · have hle' : e.nextId + 1 ≤ k := hn ▸ hle
              omega
            · obtain rfl := Option.some.inj (hp.symm.trans hget)
              cases hf
        · exact h.congr hp (by simp only [Ask.carry, hn]; omega)
  | destroy j =>
      by_cases hj : j = k
      · have hnone : ((Ask.destroy j).carry e).1.pipelines.get? k = none :=
          (Table.get?_erase ..).trans (if_pos hj)
        refine ⟨fun _ => hnone, fun p f hget => ?_⟩
        rw [hnone] at hget
        cases hget
      · exact h.congr ((Table.get?_erase ..).trans (if_neg hj)) (Nat.le_refl _)
  | order j o =>
      have ha := o.alters_carry j e
      have hn : (o.carry j e).1.nextId = e.nextId := congrArg Inventory.nextId ha.inventory
      simp only [Ask.handed]
      split
      · next hj =>
          obtain rfl := hj
          have hp := (ha.pipeline j).trans (if_pos rfl)
          refine ⟨fun hk => ?_, fun p f hget hf => ?_⟩
          · refine hp.trans ?_
            rw [h.young (hn ▸ hk)]
            rfl
          · obtain ⟨q, hq, rfl⟩ := Option.map_eq_some_iff.mp (hp.symm.trans hget)
            exact o.handed_effect (h.handed q · hq) f hf
      · next hj => exact h.congr ((ha.pipeline k).trans (if_neg hj)) (Nat.le_of_eq hn.symm)

/-- Whatever reports the end of a stream takes one of those that are left. -/
theorem Kept.reports_add_left (h : Kept k x e) (ha : a.arms k = false) :
    a.reports k e + (a.carry e).1.left k ≤ e.left k := by
  cases a with
  | startUp levels forwardsLog =>
      simp only [Ask.carry, startUp]
      split <;> exact Nat.le_of_eq (Nat.zero_add _)
  | shutDown => exact Nat.le_of_eq (Nat.zero_add _)
  | create name callbacks userdata =>
      refine Nat.le_trans (Nat.le_of_eq (Nat.zero_add _)) ?_
      rcases create_cases name callbacks userdata e k with ⟨hp, hn⟩ | ⟨hn, hp⟩
      · exact Nat.le_of_eq (left_congr hp hn)
      · split at hp
        · next hk =>
            -- a pipeline that is new can report as much as one that was not made yet
            have hnew : e.left k = 1 := by
              simp only [left, h.young (Nat.le_of_eq hk), hk, Nat.lt_irrefl, if_false]
            rw [hnew]
            exact left_le_one k _
        · next hk =>
            simp only [left, Ask.carry, hp, hn]
            split
            · exact Nat.le_refl _
            · split <;> split <;> omega
  | destroy j =>
      refine Nat.le_trans (Nat.le_of_eq (Nat.zero_add _)) ?_
      by_cases hj : j = k
      · have hnone : ((Ask.destroy j).carry e).1.pipelines.get? k = none :=
          (Table.get?_erase ..).trans (if_pos hj)
        have hn : ((Ask.destroy j).carry e).1.nextId = e.nextId := rfl
        by_cases hk : k < e.nextId
        · simp only [left, hnone, hn, hk, if_true, Nat.zero_le]
        · simp only [left, hnone, hn, hk, h.young (Nat.not_lt.mp hk), Nat.le_refl]
      · exact Nat.le_of_eq (left_congr ((Table.get?_erase ..).trans (if_neg hj)) rfl)
  | order j o =>
      have halt := o.alters_carry j e
      have hn : (o.carry j e).1.nextId = e.nextId := congrArg Inventory.nextId halt.inventory
      simp only [Ask.reports, Ask.carry]
      split
      · next hj =>
          obtain rfl := hj
          have harms : o.arms = false := by simpa [Ask.arms] using ha
          have hp := (halt.pipeline j).trans (if_pos rfl)
          rcases o.reports_spec j e with hnone | ⟨hone, p, hget, hnot, hsent⟩
          · rw [hnone, Nat.zero_add]
            cases hget : e.pipelines.get? j with
            | none =>
                rw [hget, Option.map_none] at hp
                simp only [left, hget, hp, hn, Nat.le_refl]
            | some p =>
                rw [hget, Option.map_some] at hp
                simp only [left, hget, hp]
                cases hs : p.endSent with
                | true => simp only [Order.endSent_effect harms hs, if_true, Nat.le_refl]
                | false => split <;> decide
          · rw [hget, Option.map_some] at hp
            simp only [left, hget, hp, hone, hnot, hsent]
            decide
      · next hj =>
          refine Nat.le_of_eq ((Nat.zero_add _).trans (left_congr ?_ hn))
          exact (halt.pipeline k).trans (if_neg hj)

theorem kept_after (h : Kept k x e) (as : List Ask) :
    Kept k (as.foldl (fun x a => a.handed k x) x) (e.after as) := by
  induction as generalizing e x with
  | nil => exact h
  | cons a as ih => exact ih (h.carry a)

/-- Calls that do not arm the pipeline `k` again. -/
theorem Kept.reports_after (h : Kept k x e) (hs : ∀ a ∈ as, a.arms k = false) :
    e.reports k as + (e.after as).left k ≤ e.left k := by
  induction as generalizing e x with
  | nil => exact Nat.le_of_eq (Nat.zero_add _)
  | cons a as ih =>
      have hfirst := h.reports_add_left (hs a List.mem_cons_self)
      have hrest := ih (h.carry a) fun b hb => hs b (List.mem_cons_of_mem a hb)
      have hafter : e.after (a :: as) = (a.carry e).1.after as := rfl
      simp only [reports, hafter]
      omega

/-- What a pipeline that has reported the end has ready was handed to it. -/
theorem Kept.ready?_of_spent (h : Kept k x e) (hleft : e.left k = 0) {f : Frame}
    (hf : e.ready? k = some f) : ∃ p g, e.pipelines.get? k = some p ∧ x = some g ∧
      f = ⟨p.crop.apply g.size, g.colour⟩ := by
  obtain ⟨p, hp, hready⟩ := Option.bind_eq_some_iff.mp hf
  have hsent : p.endSent = true := by
    simp only [left, hp] at hleft
    split at hleft
    · assumption
    · cases hleft
  rw [Pipeline.ready?_of_ended hsent] at hready
  obtain ⟨g, hg, rfl⟩ := Option.map_eq_some_iff.mp hready
  exact ⟨p, g, hp, h.handed p g hp hg, rfl⟩

theorem kept_of_empty (h : e.pipelines = {}) (k : Nat) : Kept k none e := by
  have hnone : e.pipelines.get? k = none := by rw [h]; rfl
  refine ⟨fun _ => hnone, fun p f hp => ?_⟩
  rw [hnone] at hp
  cases hp

end Engine
end MediaHost

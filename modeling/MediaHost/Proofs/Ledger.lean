import MediaHost.Host
import MediaHost.Proofs.Table

/-!
# Proofs — Ledger

What a host has taken and not given back: references, numbers, pipelines and callbacks on their
way (`Host.ledger`).  Nearly everything a host does leaves its ledger as it is, and changes one
pipeline at most (`Host.Alters`); the few operations that do not are computed here.
-/

namespace MediaHost

/-- The requests that start or stop the engine, and those that make or destroy a pipeline. -/
def Request.isMilestone : Request → Bool
  | .startUp | .shutDown | .call _ .create | .call _ .destroy => true
  | .call .. => false

@[simp] theorem Request.isMilestone_startUp : Request.startUp.isMilestone = true := rfl

@[simp] theorem Request.isMilestone_shutDown : Request.shutDown.isMilestone = true := rfl

@[simp] theorem Request.isMilestone_create (k : Nat) :
    (Request.call k .create).isMilestone = true := rfl

@[simp] theorem Request.isMilestone_destroy (k : Nat) :
    (Request.call k .destroy).isMilestone = true := rfl

/-- The pipeline that a notice says was given up. -/
def Notice.leak : Notice → Option Nat
  | .leaked _ k => some k
  | _ => none

/-- What the owner of a pipeline is known by. -/
def Pipeline.wire (p : Pipeline) : Nat × Callbacks := (p.userdata, p.callbacks)

/-- Whom a binding stands for, and whether it still does. -/
def Binding.wire (b : Binding Target) : Target × Bool := (b.target, b.registered)

/-- What the engine has in its books. -/
structure Inventory where
  active : Bool
  nextId : Nat
  pipelines : Table (Nat × Callbacks)
  /-- The latest first. -/
  milestones : List Request

def Engine.inventory (e : Engine) : Inventory where
  active := e.active
  nextId := e.nextId
  pipelines := e.pipelines.map Pipeline.wire
  milestones := e.history.filter Request.isMilestone

/-- What a host has taken and not given back. -/
structure Ledger where
  refs : Nat
  started : Bool
  engine : Inventory
  nextToken : Nat
  bindings : Table (Target × Bool)
  /-- The pipelines given up, oldest first. -/
  leaks : List Nat
  late : List Callback

namespace Ledger

/-- One more reference; `ok` says whether the engine starts if this is the first one. -/
def addRef (l : Ledger) (ok : Bool) : Ledger :=
  if l.refs = 0 then
    { l with
      refs := 1
      started := ok
      engine :=
        if ok then
          { l.engine with active := true, milestones := .startUp :: l.engine.milestones }
        else l.engine }
  else { l with refs := l.refs + 1 }

/-- One reference less. -/
def release (l : Ledger) : Ledger :=
  if l.refs = 0 then l
  else if l.refs = 1 && l.started then
    { l with
      refs := 0
      started := false
      engine :=
        { l.engine with active := false, milestones := .shutDown :: l.engine.milestones } }
  else { l with refs := l.refs - 1 }

/-- The next number goes to `target`. -/
def register (l : Ledger) (target : Target) : Ledger :=
  { l with
    nextToken := l.nextToken + 1
    bindings := l.bindings.set l.nextToken (target, true) }

/-- The number `t` is taken back. -/
def unregister (l : Ledger) (t : Nat) : Ledger :=
  { l with bindings := l.bindings.modify t fun b => (b.1, false) }

end Ledger

/-- What the host has taken, by its own fields. -/
def Host.ledger (h : Host) : Ledger where
  refs := h.context.refs
  started := h.context.started
  engine := h.engine.inventory
  nextToken := h.arena.next
  bindings := h.arena.bindings.map Binding.wire
  leaks := h.notices.toList.filterMap Notice.leak
  late := h.late

/-! ### One pipeline of the engine -/

namespace Pipeline
variable {p q : Pipeline}

/-- What a look for a frame may do: media that was asked to play plays, and gets on. -/
def Looked (p q : Pipeline) : Prop :=
  ∃ position pending grabbed framesGrabbed endSent blits,
    q = { p.begin with
      position := position
      pending := pending
      grabbed := grabbed
      framesGrabbed := framesGrabbed
      endSent := endSent
      blits := blits }

/-- A frame that comes by itself, or the end of the media. -/
theorem looked_produce (p : Pipeline) (auto : Option AutoFrames) :
    p.Looked (p.begin.produce auto).1 := by
  simp only [produce]
  split
  · exact ⟨_, _, _, _, _, _, rfl⟩
  · split
    · split <;> exact ⟨_, _, _, _, _, _, rfl⟩
    · exact ⟨_, _, _, _, _, _, rfl⟩

/-- A frame that was pushed is taken out of its slot. -/
theorem Looked.take (h : p.Looked q) : p.Looked q.take.1 := by
  obtain ⟨_, _, _, _, _, _, rfl⟩ := h
  simp only [Pipeline.take]
  split <;> exact ⟨_, _, _, _, _, _, rfl⟩

/-- A grab begins, produces and takes. -/
theorem looked_grab (p : Pipeline) (auto : Option AutoFrames) : p.Looked (p.grab auto).1 := by
  simp only [grab]
  split
  · exact p.looked_produce auto
  · exact (p.looked_produce auto).take

/-- What was copied is remembered. -/
theorem Looked.blit (h : p.Looked q) (surface : Surface) : p.Looked (q.blit surface) := by
  obtain ⟨_, _, _, _, _, _, rfl⟩ := h
  simp only [Pipeline.blit]
  split <;> exact ⟨_, _, _, _, _, _, rfl⟩

/-- What getting on does not touch. -/
theorem Looked.reading {β : Type} {v : Pipeline → β} (h : p.Looked q)
    (hv : ∀ position pending grabbed framesGrabbed endSent blits,
      v { p.begin with
        position := position
        pending := pending
        grabbed := grabbed
        framesGrabbed := framesGrabbed
        endSent := endSent
        blits := blits } = v p) : v q = v p := by
  obtain ⟨_, _, _, _, _, _, rfl⟩ := h
  exact hv _ _ _ _ _ _

end Pipeline

namespace Engine

/-- From `a` to `b` the engine changed the pipeline `k` by `f`, and nothing else. -/
structure Alters (k : Nat) (f : Pipeline → Pipeline) (a b : Engine) : Prop where
  inventory : b.inventory = a.inventory
  pipeline : ∀ j, b.pipelines.get? j =
    if k = j then (a.pipelines.get? j).map f else a.pipelines.get? j

variable {e : Engine} {k : Nat}

/-- Changes of one pipeline compose. -/
theorem Alters.trans {f g : Pipeline → Pipeline} {a b c : Engine} (h₁ : Alters k f a b)
    (h₂ : Alters k g b c) : Alters k (g ∘ f) a c := by
  refine ⟨h₂.inventory.trans h₁.inventory, fun j => ?_⟩
  rw [h₂.pipeline, h₁.pipeline]
  split <;> simp

/-- A request that is no milestone is not in the books. -/
theorem inventory_asked {r : Request} (hr : r.isMilestone = false) :
    (e.asked r).inventory = e.inventory := by
  simp [inventory, asked, hr]

/-- A request about a pipeline that leaves its owner alone. -/
theorem alters_change {call : Call} {f : Pipeline → Pipeline}
    (hc : (Request.call k call).isMilestone = false) (hf : ∀ p, (f p).wire = p.wire) :
    Alters k f e (e.change k call f) := by
  refine ⟨?_, fun j => ?_⟩
  · have hm := Table.map_modify_eq hf e.pipelines k
    simp only [inventory, change, asked, hm, List.filter_cons, hc]
    rfl
  · simp [change, asked]

theorem alters_setupDecoding (d : Decoding) :
    Alters k (·.setupDecoding d) e (e.setupDecoding k d).1 :=
  alters_change rfl fun _ => rfl

theorem alters_setupEncoding (enc : Encoding) :
    Alters k (·.setupEncoding enc) e (e.setupEncoding k enc) :=
  alters_change rfl fun _ => rfl

theorem alters_play : Alters k (·.play) e (e.play k) := alters_change rfl fun _ => rfl

theorem alters_pause : Alters k (·.pause) e (e.pause k) := alters_change rfl fun _ => rfl

theorem alters_stop : Alters k (·.stop) e (e.stop k) := alters_change rfl fun _ => rfl

theorem alters_close : Alters k (·.close) e (e.close k) := alters_change rfl fun _ => rfl

theorem alters_consume (data : Array UInt8) :
    Alters k (·.consume data) e (e.consume k data) :=
  alters_change rfl fun _ => rfl

theorem alters_setPosition (seconds : Double) :
    Alters k (·.setPosition seconds) e (e.setPosition k seconds) :=
  alters_change rfl fun _ => rfl

theorem alters_setBaseTime (time : UInt64) :
    Alters k (fun p => { p with baseTime := time }) e (e.setBaseTime k time) :=
  alters_change rfl fun _ => rfl

theorem alters_setVolume (volume : Double) :
    Alters k (fun p => { p with volume := volume }) e (e.setVolume k volume) :=
  alters_change rfl fun _ => rfl

theorem alters_setBitrateLimit (limit : Single) :
    Alters k (fun p => { p with bitrateLimit := limit }) e (e.setBitrateLimit k limit) :=
  alters_change rfl fun _ => rfl

theorem alters_blit (s : Surface) : Alters k (·.blit s) e (e.blit k s).1 := by
  refine alters_change rfl fun p => ?_
  simp only [Pipeline.blit]
  split <;> rfl

/-- A pipeline replaced by what became of it. -/
theorem alters_set {call : Call} {f : Pipeline → Pipeline} {p : Pipeline}
    (hp : e.pipelines.get? k = some p) (hc : (Request.call k call).isMilestone = false)
    (hf : (f p).wire = p.wire) :
    Alters k f e { e.asked (.call k call) with pipelines := e.pipelines.set k (f p) } := by
  refine ⟨?_, fun j => ?_⟩
  · have hm : (e.pipelines.map Pipeline.wire).get? k = some p.wire := by simp [hp]
    simp only [inventory, asked, Table.map_set, hf, Table.set_self hm, List.filter_cons, hc]
    rfl
  · simp only [Table.get?_set]
    split
    · next hj => rw [← hj, hp]; rfl
    · rfl

/-- A request about a pipeline that is not there changes none. -/
theorem alters_of_missing {call : Call} {f : Pipeline → Pipeline}
    (hp : e.pipelines.get? k = none) (hc : (Request.call k call).isMilestone = false) :
    Alters k f e (e.asked (.call k call)) := by
  refine ⟨inventory_asked hc, fun j => ?_⟩
  split
  · next hj => rw [← hj]; simp [asked, hp]
  · rfl

/-- A grab works on its own pipeline, also when it starts a callback. -/
theorem alters_grab : Alters k (fun p => (p.grab e.autoFrames).1) e (e.grab k).1 := by
  simp only [grab]
  split
  · next hp => exact alters_of_missing hp rfl
  · next p hp =>
      exact alters_set hp rfl ((p.looked_grab e.autoFrames).reading fun _ _ _ _ _ _ => rfl)

/-- An encoder that is ended keeps its owner. -/
theorem wire_stopEncoding (p : Pipeline) : p.stopEncoding.1.wire = p.wire := by
  simp only [Pipeline.stopEncoding]
  split <;> rfl

theorem alters_stopEncoding : Alters k (fun p => p.stopEncoding.1) e (e.stopEncoding k).1 := by
  simp only [stopEncoding]
  split
  · next hp => exact alters_of_missing hp rfl
  · next p hp => exact alters_set hp rfl (wire_stopEncoding p)

/-- A frame from outside is no request. -/
theorem alters_push (f : Frame) : Alters k (·.push f) e (e.push k f) := by
  refine ⟨?_, fun j => ?_⟩
  · have hm := Table.map_modify_eq (f := Pipeline.wire) (g := (·.push f)) (fun _ => rfl)
      e.pipelines k
    simp only [inventory, push, hm]
  · simp [push]

/-! ### Milestones -/

/-- The engine starts, which is a milestone. -/
theorem inventory_startUp {levels : Option String} {forwardsLog : Bool} {e' : Engine}
    (h : e.startUp levels forwardsLog = (e', true)) :
    e'.inventory =
      { e.inventory with active := true, milestones := .startUp :: e.inventory.milestones } := by
  simp only [startUp] at h
  split at h
  · simp at h
  · cases h
    simp [inventory, asked, List.filter_cons]

/-- A start that fails leaves the engine as it was. -/
theorem inventory_startUp_failed {levels : Option String} {forwardsLog : Bool} {e' : Engine}
    (h : e.startUp levels forwardsLog = (e', false)) : e'.inventory = e.inventory := by
  simp only [startUp] at h
  split at h
  · cases h
    rfl
  · simp at h

/-- The engine is shut down, which is another. -/
@[simp] theorem inventory_shutDown :
    e.shutDown.inventory =
      { e.inventory with active := false, milestones := .shutDown :: e.inventory.milestones } := by
  simp [inventory, shutDown, asked, List.filter_cons]

/-- A new pipeline gets the next number, and its owner is noted. -/
theorem inventory_create {name : String} {callbacks : Callbacks} {userdata id : Nat}
    {e' : Engine} (h : e.create name callbacks userdata = (e', some id)) :
    id = e.inventory.nextId ∧
      e'.inventory =
        { e.inventory with
          nextId := e.inventory.nextId + 1
          pipelines := e.inventory.pipelines.set e.inventory.nextId (userdata, callbacks)
          milestones := .call noPipeline .create :: e.inventory.milestones } := by
  by_cases hr : e.refuseNextCreate
  · simp [create, asked, hr] at h
  · simp only [create, asked, hr] at h
    cases h
    exact ⟨rfl, by simp [inventory, Pipeline.wire, List.filter_cons]⟩

/-- A refusal makes no pipeline. -/
theorem inventory_create_refused {name : String} {callbacks : Callbacks} {userdata : Nat}
    {e' : Engine} (h : e.create name callbacks userdata = (e', none)) :
    e'.inventory =
        { e.inventory with
          milestones := .call noPipeline .create :: e.inventory.milestones } ∧
      e'.pipelines = e.pipelines := by
  by_cases hr : e.refuseNextCreate
  · simp only [create, asked, hr] at h
    cases h
    exact ⟨by simp [inventory, List.filter_cons], rfl⟩
  · simp [create, asked, hr] at h

/-- A destroyed pipeline is no longer in the books. -/
@[simp] theorem inventory_destroy (k : Nat) :
    (e.destroy k).inventory =
      { e.inventory with
        pipelines := e.inventory.pipelines.erase k
        milestones := .call k .destroy :: e.inventory.milestones } := by
  simp [inventory, destroy, asked, List.filter_cons]

/-- What is counted among the requests is counted among the milestones. -/
theorem count_milestones {r : Request} (hr : r.isMilestone = true) :
    e.inventory.milestones.count r = e.history.count r :=
  List.count_filter hr

end Engine

/-! ### Numbers that resolve -/

/-- A report does not take a binding's number back. -/
theorem Binding.registered_mark {Target : Type} (b : Binding Target) (e : Event) :
    (b.mark e).registered = b.registered := by
  cases e <;> rfl

namespace Arena
variable {Target : Type} {a : Arena Target} {t : Nat}

/-- A new number resolves to its binding, the others as before. -/
theorem resolve_register (q : Nat) (target : Target) :
    (a.register q target).1.resolve t =
      if a.next = t then some { queue := q, target := target } else a.resolve t := by
  simp only [register, resolve, Table.get?_set]
  split <;> rfl

/-- A change that keeps the binding registered. -/
theorem resolve_modify {f : Binding Target → Binding Target}
    (hf : ∀ b, (f b).registered = b.registered) (u : Nat) :
    (a.modify u f).resolve t = if u = t then (a.resolve t).map f else a.resolve t := by
  simp only [modify, resolve, Table.get?_modify]
  split
  · cases a.bindings.get? t with
    | none => rfl
    | some b => cases hb : b.registered <;> simp [Option.filter, hf, hb]
  · rfl

/-- A number that was taken back resolves to nothing. -/
theorem resolve_release (u : Nat) :
    (a.release u).1.resolve t = if u = t then none else a.resolve t := by
  simp only [release, modify, resolve, Table.get?_modify]
  split
  · cases a.bindings.get? t <;> rfl
  · rfl

end Arena

/-! ### The host -/

namespace Host
variable {h : Host}

/-- Between `a` and `b` no pipeline changed, and nothing was taken or given back. -/
structure Same (a b : Host) : Prop where
  ledger : b.ledger = a.ledger
  pipelines : b.engine.pipelines = a.engine.pipelines

/-- From `a` to `b` the pipeline `k` changed by `f`, and nothing was taken or given back. -/
structure Alters (k : Nat) (f : Pipeline → Pipeline) (a b : Host) : Prop where
  ledger : b.ledger = a.ledger
  pipeline : ∀ j, b.engine.pipelines.get? j =
    if k = j then (a.engine.pipelines.get? j).map f else a.engine.pipelines.get? j

theorem Same.refl (a : Host) : Same a a := ⟨rfl, rfl⟩

theorem Same.trans {a b c : Host} (h₁ : Same a b) (h₂ : Same b c) : Same a c :=
  ⟨h₂.ledger.trans h₁.ledger, h₂.pipelines.trans h₁.pipelines⟩

theorem Same.alters {k : Nat} {a b : Host} (h : Same a b) : Alters k id a b := by
  refine ⟨h.ledger, fun j => ?_⟩
  rw [h.pipelines]
  simp

theorem Alters.trans {k : Nat} {f g : Pipeline → Pipeline} {a b c : Host} (h₁ : Alters k f a b)
    (h₂ : Alters k g b c) : Alters k (g ∘ f) a c := by
  refine ⟨h₂.ledger.trans h₁.ledger, fun j => ?_⟩
  rw [h₂.pipeline, h₁.pipeline]
  split <;> simp

theorem Alters.thenSame {k : Nat} {f : Pipeline → Pipeline} {a b c : Host} (h₁ : Alters k f a b)
    (h₂ : Same b c) : Alters k f a c := by
  refine ⟨h₂.ledger.trans h₁.ledger, fun j => ?_⟩
  rw [h₂.pipelines, h₁.pipeline]

theorem Same.thenAlters {k : Nat} {f : Pipeline → Pipeline} {a b c : Host} (h₁ : Same a b)
    (h₂ : Alters k f b c) : Alters k f a c := by
  refine ⟨h₂.ledger.trans h₁.ledger, fun j => ?_⟩
  rw [h₂.pipeline, h₁.pipelines]

/-- What was done to the pipeline may be put in other words. -/
theorem Alters.congr {k : Nat} {f g : Pipeline → Pipeline} {a b : Host} (h : Alters k f a b)
    (hfg : ∀ p, a.engine.pipelines.get? k = some p → f p = g p) : Alters k g a b := by
  refine ⟨h.ledger, fun j => (h.pipeline j).trans ?_⟩
  split
  · next hj => exact Option.map_congr fun p hp => hfg p (hj ▸ hp)
  · rfl

/-- The pipeline that was worked on, afterwards. -/
theorem Alters.at {k : Nat} {f : Pipeline → Pipeline} {a b : Host} (h : Alters k f a b)
    {p : Pipeline} (hp : a.engine.pipelines.get? k = some p) :
    b.engine.pipelines.get? k = some (f p) := by
  rw [h.pipeline, if_pos rfl, hp]
  rfl

/-- A reading of the pipelines, afterwards. -/
theorem Alters.reading {β : Type} {v : Pipeline → β} {t : β → β} {k : Nat}
    {f : Pipeline → Pipeline} {a b : Host} (h : Alters k f a b) (hv : ∀ p, v (f p) = t (v p))
    (j : Nat) :
    (b.engine.pipelines.get? j).map v =
      if k = j then ((a.engine.pipelines.get? j).map v).map t
      else (a.engine.pipelines.get? j).map v := by
  rw [h.pipeline]
  split
  · rw [Option.map_map, Option.map_map]
    exact Option.map_congr fun p _ => hv p
  · rfl

theorem Alters.kept {β : Type} {v : Pipeline → β} {k : Nat} {f : Pipeline → Pipeline} {a b : Host}
    (h : Alters k f a b) (hv : ∀ p, v (f p) = v p) (j : Nat) :
    (b.engine.pipelines.get? j).map v = (a.engine.pipelines.get? j).map v := by
  rw [h.reading (t := id) hv, Option.map_id]
  exact ite_self _

/-- Any other pipeline, afterwards. -/
theorem Alters.other {k j : Nat} {f : Pipeline → Pipeline} {a b : Host} (h : Alters k f a b)
    (hj : k ≠ j) : b.engine.pipelines.get? j = a.engine.pipelines.get? j := by
  rw [h.pipeline, if_neg hj]

@[simp] theorem engine_setEngine (e : Engine) : (h.setEngine e).engine = e := rfl

@[simp] theorem ledger_setEngine (e : Engine) :
    (h.setEngine e).ledger = { h.ledger with engine := e.inventory } := rfl

theorem alters_setEngine {k : Nat} {f : Pipeline → Pipeline} {e : Engine}
    (he : Engine.Alters k f h.engine e) : Alters k f h (h.setEngine e) := by
  refine ⟨?_, he.pipeline⟩
  rw [ledger_setEngine, he.inventory]
  rfl

/-- What the engine is told about a pipeline. -/
theorem alters_tell {k : Nat} {f : Pipeline → Pipeline} {g : Engine → Engine}
    (he : Engine.Alters k f h.engine (g h.engine)) : Alters k f h (h.tell g) :=
  alters_setEngine he

theorem same_setEngine {e : Engine} (hi : e.inventory = h.engine.inventory)
    (hp : e.pipelines = h.engine.pipelines) : Same h (h.setEngine e) := by
  refine ⟨?_, hp⟩
  rw [ledger_setEngine, hi]
  rfl

/-! ### What leaves the ledger alone -/

theorem same_record (x : Happening) : Same h (h.record x) := ⟨rfl, rfl⟩

/-- A notice is in the ledger only if it says that a pipeline was given up. -/
@[simp] theorem ledger_note (n : Notice) :
    (h.note n).ledger = { h.ledger with leaks := h.ledger.leaks ++ n.leak.toList } := by
  simp only [ledger, note, Array.toList_push, List.filterMap_append]
  cases n <;> rfl

theorem same_note {n : Notice} (hn : n.leak = none) : Same h (h.note n) := by
  refine ⟨?_, rfl⟩
  rw [ledger_note, hn]
  simp

theorem same_noteAll {ns : List Notice} (hn : ∀ n ∈ ns, n.leak = none) :
    Same h (h.noteAll ns) := by
  simp only [noteAll]
  induction ns generalizing h with
  | nil => exact .refl h
  | cons n ns ih =>
      exact (same_note (hn n List.mem_cons_self)).trans
        (ih fun m hm => hn m (List.mem_cons_of_mem n hm))

/-- Notices come in order, after those before. -/
theorem noteAll_eq (h : Host) (ns : List Notice) :
    h.noteAll ns = { h with notices := h.notices ++ ns.toArray } := by
  simp only [noteAll]
  induction ns generalizing h with
  | nil => simp
  | cons n ns ih =>
      rw [List.foldl_cons, ih]
      simp [note]

@[simp] theorem context_noteAll (ns : List Notice) : (h.noteAll ns).context = h.context := by
  rw [noteAll_eq]

@[simp] theorem engine_noteAll (ns : List Notice) : (h.noteAll ns).engine = h.engine :=
  congrArg Context.engine (context_noteAll ns)

theorem same_modifyQueue (q : Nat) (f : EventQueue Job → EventQueue Job) :
    Same h (h.modifyQueue q f) := ⟨rfl, rfl⟩

/-- A report leaves a binding with its owner. -/
theorem wire_mark (b : Binding Target) (e : Event) : (b.mark e).wire = b.wire := by
  cases e <;> rfl

/-- A change that leaves bindings with their owners. -/
theorem same_modifyArena {t : Nat} {f : Binding Target → Binding Target}
    (hf : ∀ b, (f b).wire = b.wire) : Same h { h with arena := h.arena.modify t f } := by
  refine ⟨?_, rfl⟩
  have hm := Table.map_modify_eq hf h.arena.bindings t
  simp only [ledger, Arena.modify, hm]
  rfl

/-- A callback marks a binding and queues work, and takes nothing. -/
theorem same_signal (c : Callback) : Same h (h.signal c) := by
  simp only [signal]
  split
  · exact .refl h
  · exact (same_modifyArena fun b => wire_mark b c.event).trans (same_modifyQueue _ _)

/-- The binding of the number that is called back is marked, and no other. -/
theorem resolve_signal (c : Callback) (t : Nat) :
    (h.signal c).arena.resolve t =
      if c.userdata = t then (h.arena.resolve t).map (·.mark c.event) else h.arena.resolve t := by
  simp only [signal]
  split
  · next hn =>
      split
      · next hc => rw [← hc, hn]; rfl
      · rfl
  · exact Arena.resolve_modify (fun b => b.registered_mark c.event) c.userdata

theorem same_signalAll (cs : List Callback) : Same h (h.signalAll cs) := by
  simp only [signalAll]
  induction cs generalizing h with
  | nil => exact .refl h
  | cons c cs ih => exact (same_signal c).trans ih

theorem context_signal (c : Callback) : (h.signal c).context = h.context := by
  simp only [signal]
  split <;> rfl

@[simp] theorem context_signalAll (cs : List Callback) :
    (h.signalAll cs).context = h.context := by
  simp only [signalAll]
  induction cs generalizing h with
  | nil => rfl
  | cons c cs ih => exact ih.trans (context_signal c)

/-- A callback that arrives sends no other on its way. -/
theorem inFlight_signal (c : Callback) : (h.signal c).inFlight = h.inFlight := by
  simp only [signal]
  split <;> rfl

theorem inFlight_signalAll (cs : List Callback) : (h.signalAll cs).inFlight = h.inFlight := by
  simp only [signalAll]
  induction cs generalizing h with
  | nil => rfl
  | cons c cs ih => exact ih.trans (inFlight_signal c)

theorem context_settle : h.settle.context = h.context := context_signalAll _

@[simp] theorem engine_signalAll (cs : List Callback) : (h.signalAll cs).engine = h.engine :=
  congrArg Context.engine (context_signalAll cs)

theorem same_inFlight (cs : List Callback) : Same h { h with inFlight := cs } := ⟨rfl, rfl⟩

/-- Whether its threads are prompt or not, an engine that reports takes nothing. -/
theorem same_launch (cs : List Callback) : Same h (h.launch cs) := by
  simp only [launch]
  split
  · exact same_signalAll cs
  · exact same_inFlight _

@[simp] theorem context_launch (cs : List Callback) : (h.launch cs).context = h.context := by
  simp only [launch]
  split
  · exact context_signalAll cs
  · rfl

@[simp] theorem engine_launch (cs : List Callback) : (h.launch cs).engine = h.engine :=
  congrArg Context.engine (context_launch cs)

/-- Nothing arrives that is not in flight. -/
theorem arrive_cases (h : Host) (n : Nat) : h.arrive n = h ∨
    ∃ c ∈ h.inFlight, h.arrive n = { h with inFlight := h.inFlight.eraseIdx n }.signal c := by
  simp only [arrive]
  split
  · exact .inl rfl
  · next c hc => exact .inr ⟨c, List.mem_of_getElem? hc, rfl⟩

/-- A callback out of flight is a callback like any. -/
theorem same_arrive (n : Nat) : Same h (h.arrive n) := by
  rcases h.arrive_cases n with heq | ⟨c, -, heq⟩ <;> rw [heq]
  · exact .refl h
  · exact (same_inFlight _).trans (same_signal c)

theorem context_arrive (n : Nat) : (h.arrive n).context = h.context := by
  rcases h.arrive_cases n with heq | ⟨c, -, heq⟩ <;> rw [heq]
  exact context_signal c

/-- A request that may be answered by callbacks. -/
theorem alters_request {k : Nat} {f : Pipeline → Pipeline} {g : Engine → Engine × List Callback}
    (he : Engine.Alters k f h.engine (g h.engine).1) : Alters k f h (h.request g) :=
  (alters_setEngine he).thenSame (same_launch _)

/-! ### What changes the ledger -/

/-- The first reference starts the engine, if that goes well. -/
theorem ledger_addRef : ∃ ok, h.addRef.ledger = h.ledger.addRef ok := by
  by_cases hr : h.context.refs = 0
  · rcases hs : h.context.engine.startUp h.context.levels h.context.forwardsLog with ⟨e, ok⟩
    refine ⟨ok, ?_⟩
    -- what is noted of the start is not that a pipeline was given up
    have hq : Same { h with context := { h.context with engine := e, started := ok, refs := 1 } }
        h.addRef := by
      simp only [addRef, Context.addRef, Context.start, hr, hs, if_true]
      refine same_noteAll fun n hn => ?_
      split at hn
      · split at hn
        · rw [List.mem_singleton.mp hn]; rfl
        · cases hn
      · rw [List.mem_singleton.mp hn]; rfl
    rw [hq.ledger]
    have hl : h.ledger.refs = 0 := hr
    cases ok with
    | true =>
        have hi := Engine.inventory_startUp hs
        simp only [Ledger.addRef, hl, if_true]
        simp only [ledger, engine] at hi ⊢
        rw [hi]
    | false =>
        have hi := Engine.inventory_startUp_failed hs
        simp only [Ledger.addRef, hl, if_true, Bool.false_eq_true, if_false]
        simp only [ledger, engine] at hi ⊢
        rw [hi]
  · refine ⟨true, ?_⟩
    have hl : ¬h.ledger.refs = 0 := hr
    simp only [addRef, Context.addRef, hr, if_false, Ledger.addRef, hl]
    rfl

/-- A start makes no pipelines. -/
@[simp] theorem pipelines_addRef : h.addRef.engine.pipelines = h.engine.pipelines := by
  by_cases hr : h.context.refs = 0
  · simp only [addRef, engine_noteAll, Context.addRef, Context.start, Engine.startUp, hr, if_true]
    by_cases hf : 0 < h.context.engine.failingStarts <;> simp only [hf, if_true, if_false] <;> rfl
  · simp only [addRef, engine_noteAll, Context.addRef, hr, if_false]
    rfl

/-- The last reference shuts the engine down, if it was started. -/
theorem ledger_releaseRef : h.releaseRef.ledger = h.ledger.release := by
  simp only [releaseRef, Context.release, Ledger.release]
  have hr : h.ledger.refs = h.context.refs := rfl
  have hs : h.ledger.started = h.context.started := rfl
  by_cases h0 : h.context.refs = 0
  · simp only [hr, h0, if_true]
    exact (same_note (n := .releasedPastZero) rfl).ledger
  · -- the engine is shut down with the last reference
    have hone : (h.context.refs - 1 = 0) ↔ h.context.refs = 1 := by omega
    simp only [hr, hs, h0, if_false, hone]
    split
    · next hc =>
        have h1 : h.context.refs = 1 := by simp at hc; exact hc.1
        have hi := Engine.inventory_shutDown (e := h.engine)
        simp only [ledger, engine, noteAll, List.foldl_nil, h1] at hi ⊢
        rw [hi]
    · rfl

/-- A lease gives its reference back. -/
theorem ledger_releaseLease {l : Lease} (hl : l.released = false) :
    (h.releaseLease l).ledger = h.ledger.release := by
  rw [← ledger_releaseRef]
  simp [releaseLease, Lease.release, hl, releaseRef]

/-- The host with one more number given out. -/
def register (h : Host) (q : Nat) (target : Target) : Host :=
  { h with arena := (h.arena.register q target).1 }

/-- The host with the number `t` taken back. -/
def unregister (h : Host) (t : Nat) : Host := { h with arena := (h.arena.release t).1 }

@[simp] theorem engine_unregister (t : Nat) : (h.unregister t).engine = h.engine := rfl

@[simp] theorem ledger_register (q : Nat) (target : Target) :
    (h.register q target).ledger = h.ledger.register target := by
  simp [ledger, register, Arena.register, Ledger.register, Binding.wire, engine]

@[simp] theorem ledger_unregister (t : Nat) : (h.unregister t).ledger = h.ledger.unregister t := by
  have hm := Table.map_modify (f := Binding.wire) (g := fun b => { b with registered := false })
    (r := fun b => (b.1, false)) (fun _ => rfl) h.arena.bindings t
  simp only [ledger, unregister, Arena.release, Arena.modify, Ledger.unregister, hm]
  rfl

/-- The number `t` is registered exactly if the ledger says so. -/
theorem isSome_resolve {t : Nat} :
    (h.arena.resolve t).isSome = ((h.ledger.bindings.get? t).map (·.2)).getD false := by
  simp only [Arena.resolve, ledger, Table.get?_map]
  cases h.arena.bindings.get? t with
  | none => rfl
  | some b => cases hb : b.registered <;> simp [Binding.wire, Option.filter, hb]

/-- Whoever is found under the number `t` stands in the ledger. -/
theorem bindings_of_resolve {t : Nat} {b : Binding Target} (hr : h.arena.resolve t = some b) :
    h.ledger.bindings.get? t = some (b.target, true) := by
  obtain ⟨hget, hregistered⟩ := Option.filter_eq_some_iff.mp hr
  simp only [ledger, Table.get?_map, hget, Option.map_some, Binding.wire, hregistered]

end Host
end MediaHost

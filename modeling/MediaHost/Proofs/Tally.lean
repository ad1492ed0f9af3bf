import MediaHost.Proofs.Phases

/-!
# Proofs — Tally

What a tick or a drain delivers to a session: none of the events that wait for it, or all of them
(`Taken`).  Every event that is delivered is entered in the session's account once, and every
observer of its topic is called once for it, whatever the observers do and whether or not there
are any (`Tally.told`).  This holds of any tick and of any drain, also of those that another
session asked for (`World.Tidy.brings`).
-/

namespace MediaHost

/-! ### One delivery -/

/-- Whose observers are called for an event. -/
def Event.topic (e : Event) : Topic := (Occasion.event e).topic

/-- What the events that are delivered to a session change of it, whatever its media is: its
account, and the calls of the observers that are not for the first frame. -/
@[ext]
structure Tally where
  health : Health
  observers : Observers Observer

def Session.tally (x : Session) : Tally where
  health := x.health
  observers := x.observers.set .start []

namespace Tally

/-- An event is entered in the account, and every observer of its topic is called for it. -/
def told (t : Tally) (e : Event) : Tally where
  health := t.health.record e
  observers := t.observers.called e.topic

def toldAll (t : Tally) (es : List Event) : Tally := es.foldl told t

theorem toldAll_append (t : Tally) (es fs : List Event) :
    t.toldAll (es ++ fs) = (t.toldAll es).toldAll fs := List.foldl_append

/-- Its account is that of the events in their order. -/
theorem health_toldAll (es : List Event) (t : Tally) :
    (t.toldAll es).health = es.foldl Health.record t.health := by
  induction es generalizing t with
  | nil => rfl
  | cons e es ih => exact ih (t.told e)

end Tally

namespace Estate

theorem tally_told (x : Estate) (e : Event) :
    (x.told e).session.tally = x.session.tally.told e := by
  cases e with
  | finished =>
      simp only [told, rewound]
      split <;> rfl
  | failed message =>
      simp only [told, halted]
      split <;> rfl
  | quality report => rfl

/-- What a session is told is counted. -/
theorem tally_toldAll (es : List Event) (x : Estate) :
    (x.toldAll es).session.tally = x.session.tally.toldAll es := by
  induction es generalizing x with
  | nil => rfl
  | cons e es ih =>
      rw [Tally.toldAll, List.foldl_cons, ← tally_told]
      exact ih (x.told e)

end Estate

/-! ### What is delivered of what waits -/

/-- Of the events `m` that wait for a session, those that are delivered while `m'` come to wait:
none, or all.  They are lost without a delivery only if the queue is closed. -/
inductive Taken (m m' : List Event) (deaf : Bool) : List Event → Prop
  | left (h : m' = m) : Taken m m' deaf []
  | lost (hd : deaf = true) (h : m' = []) : Taken m m' deaf []
  | all (h : m' = []) : Taken m m' deaf m

/-- From no mail nothing is taken. -/
theorem Taken.of_nil {m' es : List Event} {deaf : Bool} (h : Taken [] m' deaf es) :
    es = [] ∧ m' = [] := by
  cases h with
  | left h | all h => exact ⟨rfl, h⟩
  | lost _ h => exact ⟨rfl, h⟩

/-- What is taken in two goes is taken in one, as long as a deaf session stays deaf. -/
theorem Taken.trans {m m₁ m' es fs : List Event} {deaf₁ deaf : Bool} (h₁ : Taken m m₁ deaf₁ es)
    (h₂ : Taken m₁ m' deaf fs) (hd : deaf₁ = true → deaf = true) :
    Taken m m' deaf (es ++ fs) := by
  cases h₁ with
  | left h => exact h ▸ h₂
  | lost hd₁ h =>
      obtain ⟨rfl, hm⟩ := (h ▸ h₂).of_nil
      exact .lost (hd hd₁) hm
  | all h =>
      obtain ⟨rfl, hm⟩ := (h ▸ h₂).of_nil
      rw [List.append_nil]
      exact .all hm

namespace World
variable {w w₁ w' : World} {i j q : Nat} {token : Option Nat} {es fs : List Event}
  {s s' y y' : Stage} {a : Action}

def tally? (w : World) (i : Nat) : Option Tally := (w.sessions.get? i).map Session.tally

theorem tally?_eq (hs : w.stage? i = some s) : w.tally? i = some s.session.tally := by
  simp only [tally?, (stage?_eq_some.mp hs).2.1, Option.map_some]

theorem tally_of_estate (w : World) (i : Nat) :
    (w.estate? i).map (·.session.tally) = w.tally? i := by
  simp only [estate?, stage?, tally?, Option.map_map]
  rfl

/-- Work by which `es` are delivered to the session `i`. -/
structure Yields (i : Nat) (token : Option Nat) (q : Nat) (es : List Event) (w w' : World) :
    Prop where
  leads : Leads w w'
  wanes : Wanes w w'
  tally : w'.tally? i = (w.tally? i).map (·.toldAll es)
  taken : Taken (w.host.mail token q) (w'.host.mail token q) (w'.host.queue q).closed es

theorem map_tally_nil (t : Option Tally) : t.map (·.toldAll []) = t := by
  cases t <;> rfl

theorem Yields.refl (w : World) : Yields i token q [] w w :=
  ⟨.refl w, lenient_wanes.refl w, (map_tally_nil _).symm, .left rfl⟩

/-- Events that are told one after another add up. -/
theorem Yields.trans (h₁ : Yields i token q es w w₁) (h₂ : Yields i token q fs w₁ w') :
    Yields i token q (es ++ fs) w w' where
  leads := h₁.leads.trans h₂.leads
  wanes := lenient_wanes.trans h₁.wanes h₂.wanes
  tally := by
    rw [h₂.tally, h₁.tally, Option.map_map]
    exact Option.map_congr fun t _ => (t.toldAll_append es fs).symm
  taken := h₁.taken.trans h₂.taken (h₂.wanes.host.queue q).closed

/-- Whatever work does, it delivers none or all of what waits for the session. -/
theorem Hears.yields (h : Hears i token q w w') (hP : w.Posted i token q) :
    ∃ es, Yields i token q es w w' := by
  have hsame : w'.estate? i = w.estate? i →
      w'.tally? i = (w.tally? i).map (·.toldAll []) := fun he => by
    rw [← tally_of_estate, ← tally_of_estate, he, map_tally_nil]
  cases h.fares hP with
  | still he _ hm => exact ⟨[], h.leads, h.wanes, hsame he, .left hm⟩
  | lost he hc hm => exact ⟨[], h.leads, h.wanes, hsame he, .lost hc hm⟩
  | heard he hm =>
      refine ⟨_, h.leads, h.wanes, ?_, .all hm⟩
      rw [← tally_of_estate, ← tally_of_estate, he, Option.map_map, Option.map_map]
      exact Option.map_congr fun x _ => x.tally_toldAll _

/-- A session that sets its start observers aside, or takes them back. -/
theorem yields_observers (w : World) {o : Observers Observer}
    (ho : o.set .start [] = (observersOf i w).set .start []) :
    Yields i token q [] w (setObservers i o w) where
  leads := (reacts_leads i).observers w o
  wanes := (reacts_wanes i).observers w o
  taken := .left rfl
  tally := by
    rw [map_tally_nil, tally?, tally?, setObservers, get?_modifySession, if_pos rfl]
    cases hx : w.sessions.get? i with
    | none => rfl
    | some x =>
        simp only [observersOf, hx, Option.map_some, Option.getD_some] at ho
        exact congrArg some (Tally.ext rfl ho)

/-- The start observers of the session are called. -/
theorem yields_started (hP : w.Posted i token q) :
    ∃ es, Yields i token q es w (notify drain i .started w) := by
  have htake : Yields i token q [] w (setObservers i ((observersOf i w).set .start []) w) :=
    yields_observers w (Observers.set_set _ _ _ _)
  have hcalls := (lenient_hears i token q).callAll (hears_drain i token q)
    (hears_started token q) (observersOf i w).start
    (setObservers i ((observersOf i w).set .start []) w)
  obtain ⟨es, hes⟩ := hcalls.yields (hP.work htake.leads htake.wanes)
  have hback := fun o => (htake.trans hes).trans
    (yields_observers (o := (observersOf i _).set .start o) _ (Observers.set_set _ _ _ _))
  exact ⟨_, hback _⟩

/-- What a tick does after its look for a frame. -/
theorem yields_advance (hP : (w.act j (·.withLive Stage.pull)).1.Posted i token q) :
    ∃ es, Yields i token q es (w.act j (·.withLive Stage.pull)).1 (w.advance j).1 := by
  by_cases hij : j = i
  · obtain rfl := hij
    simp only [advance]
    split
    · next heq =>
        rw [heq]
        exact ⟨[], .refl _⟩
    · next heq =>
        rw [heq]
        exact ⟨[], .refl _⟩
    · next heq =>
        rw [heq]
        exact ⟨[], .refl _⟩
    · next w₁ frame _ heq =>
        rw [heq] at hP ⊢
        have hdrain : ∀ {w₂ : World} {es}, Yields j token q es w₁ w₂ → ∀ p,
            ∃ es, Yields j token q es w₁ (drain w₂ p).1 := by
          intro w₂ es h p
          obtain ⟨fs, hfs⟩ :=
            (hears_drain j token q w₂ p).yields (hP.work h.leads h.wanes)
          exact ⟨_, h.trans hfs⟩
        split
        · obtain ⟨es, hes⟩ := yields_started hP
          exact hdrain hes _
        · exact hdrain (.refl w₁) _
  · exact ((lenient_hears i token q).advance (hears_drain i token q)
      (reacts_hears token q hij).observers (hears_started token q) w).yields hP

/-! ### Actions -/

end World

/-- An action that runs queued work. -/
def Action.isWork : Action → Bool
  | .tick _ | .drain _ => true
  | _ => false

namespace World
variable {w w₁ w' : World} {i j q : Nat} {es : List Event} {s s' y y' : Stage} {a : Action}

/-- The world when an action comes to run queued work; a tick looks for a frame before. -/
def looked (w : World) : Action → World
  | .tick j => (w.act j (·.withLive Stage.pull)).1
  | _ => w

/-- The events that an action delivers to the session `i`.  Ticks and drains deliver what waits
for it, or nothing of it; a drain of the session's own queue delivers all.  No other action runs
queued work. -/
inductive Brings (w : World) (i : Nat) (a : Action) : List Event → Prop
  | absent (hn : w.stage? i = none) : Brings w i a []
  | idle (ha : a.isWork = false) : Brings w i a []
  | work {y y' : Stage} {es : List Event} (ha : a.isWork = true)
    (hy : (w.looked a).stage? i = some y) (hy' : (w.apply a).stage? i = some y')
    (ht : Taken y.mail y'.mail y'.isDeaf es)
    (ho : y'.session.tally.observers = (y.session.tally.toldAll es).observers)
    (hall : a = .drain y.session.queue → es = y.mail) : Brings w i a es

/-- The session has told what the run yields. -/
theorem Yields.tally_of_stage (h : Yields i y.session.token y.session.queue es w w')
    (hy : w.stage? i = some y) (hy' : w'.stage? i = some y') :
    y'.session.tally = y.session.tally.toldAll es := by
  have ht := h.tally
  rw [tally?_eq hy, tally?_eq hy', Option.map_some] at ht
  exact Option.some.inj ht

/-- What the run yields was taken from the session's mail. -/
theorem Yields.taken_of_stage (h : Yields i y.session.token y.session.queue es w w')
    (hy : w.stage? i = some y) (hy' : w'.stage? i = some y') :
    Taken y.mail y'.mail y'.isDeaf es := by
  rw [h.wanes.mail hy hy', h.wanes.isDeaf hy hy', ← mail_of_stage hy]
  exact h.taken

/-- Ticks and drains: whatever is delivered, the account is that of before with these events
entered. -/
theorem Tidy.brings (hw : w.Tidy) (ha : a.isWork = true)
    (hy : (w.looked a).stage? i = some y) (hy' : (w.apply a).stage? i = some y') :
    ∃ es, w.Brings i a es ∧ y'.session.health = es.foldl Health.record y.session.health := by
  have hgoal : ∀ es, Yields i y.session.token y.session.queue es (w.looked a) (w.apply a) →
      (a = .drain y.session.queue → es = y.mail) →
      ∃ es, w.Brings i a es ∧ y'.session.health = es.foldl Health.record y.session.health := by
    intro es h hall
    have ht := h.tally_of_stage hy hy'
    refine ⟨es, .work ha hy hy' (h.taken_of_stage hy hy') (congrArg Tally.observers ht) hall, ?_⟩
    exact (congrArg Tally.health ht).trans (Tally.health_toldAll es _)
  cases a with
  | tick j =>
      obtain ⟨es, hes⟩ := yields_advance ((hw.look j).posted hy)
      exact hgoal es hes nofun
  | drain p =>
      by_cases hp : p = y.session.queue
      · obtain rfl := hp
        have htold := told_drain (hw.posted hy) (hw.host.idle y.session.queue)
        have hmail := mail_of_stage hy
        refine hgoal y.mail ⟨htold.leads, htold.wanes, ?_, ?_⟩ fun _ => rfl
        · rw [← tally_of_estate, ← tally_of_estate, ← hmail]
          refine (congrArg (Option.map (·.session.tally)) htold.estate).trans ?_
          rw [Option.map_map, Option.map_map]
          exact Option.map_congr fun x _ => x.tally_toldAll _
        · rw [← hmail]
          exact .all htold.mail
      · obtain ⟨es, hes⟩ := (hears_drain i _ _ w p).yields (hw.posted hy)
        exact hgoal es hes fun h => absurd (Action.drain.inj h) hp
  | _ => cases ha

end World
end MediaHost

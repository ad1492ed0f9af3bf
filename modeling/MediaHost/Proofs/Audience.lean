import MediaHost.Proofs.Hearing

/-!
# Proofs — Audience

The observers of a session, whatever they do when they are called: they may change themselves and
anything else, register any number of others for any topic, and panic (`Conduct`).  An audience
gives every observer a ticket when it is registered and keeps a diary of registrations and calls.
`Conduct.round` says what the calls of some observers come to if nobody else is there;
`observers_called_in_turn` says that a notification is such a round, and that the newcomers are
seated behind those who were there.
-/

namespace MediaHost

theorem Observers.of_set_of_ne {α : Type} (o : Observers α) {t u : Topic} (h : t ≠ u)
    (l : List α) : (o.set t l).of u = o.of u := by
  cases t <;> cases u <;> first | rfl | exact absurd rfl h

/-! ### What observers do -/

/-- An observer, with the ticket that its registration gave it. -/
structure Guest (α : Type) where
  ticket : Nat
  self : α
deriving DecidableEq

/-- What the call of one observer leaves behind. -/
structure Aftermath (α ρ : Type) where
  self : α
  /-- Everything that is no observer. -/
  rest : ρ
  /-- Whom the observer registered, in order. -/
  newcomers : List (Topic × α) := []
  /-- The call ended in a panic, which comes after the registrations. -/
  panicked : Bool := false

/-- What observers do when they are called. -/
abbrev Conduct (α ρ : Type) := Occasion → α → ρ → Aftermath α ρ

/-- What the calls of some observers come to. -/
structure Round (α ρ : Type) where
  guests : List (Guest α)
  rest : ρ
  newcomers : List (Topic × α)

/-- Some observers are called one after another, and nobody else. -/
def Conduct.round {α ρ : Type} (conduct : Conduct α ρ) (occasion : Occasion) :
    List (Guest α) → ρ → Round α ρ
  | [], rest => ⟨[], rest, []⟩
  | g :: l, rest =>
    let left := conduct occasion g.self rest
    let others := conduct.round occasion l left.rest
    ⟨⟨g.ticket, left.self⟩ :: others.guests, others.rest, left.newcomers ++ others.newcomers⟩

/-- The newcomers of a topic, if their tickets begin with `n`. -/
def seated {α : Type} (t : Topic) : (n : Nat) → List (Topic × α) → List (Guest α)
  | _, [] => []
  | n, (u, a) :: l => if u = t then ⟨n, a⟩ :: seated t (n + 1) l else seated t (n + 1) l

/-- An entry of the diary. -/
inductive Entry
  | joined (topic : Topic) (ticket : Nat)
  | called (occasion : Occasion) (ticket : Nat) (panicked : Bool)
deriving DecidableEq

namespace Entry

/-- Who was called. -/
def call? : Entry → Option (Occasion × Nat)
  | .joined .. => none
  | .called occasion ticket _ => some (occasion, ticket)

/-- Who was registered. -/
def ticket? : Entry → Option Nat
  | .joined _ ticket => some ticket
  | .called .. => none

/-- Who was registered for the topic. -/
def ticketOf? (t : Topic) : Entry → Option Nat
  | .joined u ticket => if u = t then some ticket else none
  | .called .. => none

end Entry

/-- Observers, and everything else. -/
structure Audience (α ρ : Type) where
  observers : Observers (Guest α) := {}
  rest : ρ
  /-- The next ticket. -/
  next : Nat := 0
  /-- Oldest first. -/
  diary : List Entry := []

/-- What happens to an audience from outside. -/
inductive Audience.Move (α : Type)
  | register (topic : Topic) (a : α)
  | notify (occasion : Occasion)

namespace Audience
variable {α ρ : Type}

def register (topic : Topic) (a : α) (x : Audience α ρ) : Audience α ρ :=
  { x with
    observers := x.observers.add topic ⟨x.next, a⟩
    next := x.next + 1
    diary := x.diary ++ [.joined topic x.next] }

/-- Registers one after another. -/
def registerAll (l : List (Topic × α)) (x : Audience α ρ) : Audience α ρ :=
  l.foldl (fun x n => x.register n.1 n.2) x

/-- Calls one observer.  A panic stays with the observer. -/
def call (conduct : Conduct α ρ) (occasion : Occasion) (g : Guest α) (x : Audience α ρ) :
    Guest α × Audience α ρ :=
  let left := conduct occasion g.self x.rest
  let x := { x with
    rest := left.rest
    diary := x.diary ++ [Entry.called occasion g.ticket left.panicked] }
  (⟨g.ticket, left.self⟩, x.registerAll left.newcomers)

def notify (conduct : Conduct α ρ) (occasion : Occasion) (x : Audience α ρ) : Audience α ρ :=
  Observers.notify Audience.observers (fun o x => { x with observers := o })
    (call conduct occasion) occasion.topic x

def move (conduct : Conduct α ρ) (x : Audience α ρ) : Move α → Audience α ρ
  | .register topic a => x.register topic a
  | .notify occasion => x.notify conduct occasion

def run (conduct : Conduct α ρ) (x : Audience α ρ) (ms : List (Move α)) : Audience α ρ :=
  ms.foldl (move conduct) x

/-- The tickets of the observers of a topic. -/
def tickets (x : Audience α ρ) (t : Topic) : List Nat := (x.observers.of t).map Guest.ticket

variable {conduct : Conduct α ρ} {occasion : Occasion} {x x₁ x' : Audience α ρ}
  {l l' : List (Topic × α)} {cs cs' : List (Occasion × Nat)} {t : Topic} {n : Nat}

/-! ### Newcomers -/

theorem seated_append (t : Topic) (n : Nat) (l l' : List (Topic × α)) :
    seated t n (l ++ l') = seated t n l ++ seated t (n + l.length) l' := by
  induction l generalizing n with
  | nil => rfl
  | cons a l ih =>
      have hn : n + 1 + l.length = n + (a :: l).length := by
        rw [List.length_cons]
        omega
      simp only [List.cons_append, seated, ih, hn]
      split <;> rfl

/-- The diary goes on with the calls `cs` and the registrations of `l`. -/
structure Notes (cs : List (Occasion × Nat)) (l : List (Topic × α)) (n : Nat)
    (news : List Entry) : Prop where
  calls : news.filterMap Entry.call? = cs
  joined : ∀ t, news.filterMap (Entry.ticketOf? t) = (seated t n l).map Guest.ticket
  tickets : news.filterMap Entry.ticket? = List.range' n l.length

theorem Notes.append {news news' : List Entry} (h : Notes cs l n news)
    (h' : Notes cs' l' (n + l.length) news') : Notes (cs ++ cs') (l ++ l') n (news ++ news') where
  calls := by rw [List.filterMap_append, h.calls, h'.calls]
  joined t := by
    rw [List.filterMap_append, h.joined, h'.joined, seated_append, List.map_append]
  tickets := by
    rw [List.filterMap_append, h.tickets, h'.tickets, List.length_append,
      ← List.range'_append_1]

/-- From `x` to `x'`, while no list of observers is taken away: the newcomers `l` are seated behind
those who are there, and the calls `cs` are made. -/
structure Grows (cs : List (Occasion × Nat)) (l : List (Topic × α)) (x x' : Audience α ρ) :
    Prop where
  observers : ∀ t, x'.observers.of t = x.observers.of t ++ seated t x.next l
  next : x'.next = x.next + l.length
  diary : ∃ news, x'.diary = x.diary ++ news ∧ Notes cs l x.next news

theorem Grows.refl (x : Audience α ρ) : Grows [] [] x x where
  observers _ := (List.append_nil _).symm
  next := rfl
  diary := ⟨[], (List.append_nil _).symm, rfl, fun _ => rfl, rfl⟩

theorem Grows.trans (h₁ : Grows cs l x x₁) (h₂ : Grows cs' l' x₁ x') :
    Grows (cs ++ cs') (l ++ l') x x' where
  observers t := by
    rw [h₂.observers, h₁.observers, h₁.next, seated_append, List.append_assoc]
  next := by rw [h₂.next, h₁.next, List.length_append, Nat.add_assoc]
  diary := by
    obtain ⟨news, hd, hn⟩ := h₁.diary
    obtain ⟨news', hd', hn'⟩ := h₂.diary
    refine ⟨news ++ news', ?_, hn.append (h₁.next ▸ hn')⟩
    rw [hd', hd, List.append_assoc]

theorem grows_register (topic : Topic) (a : α) (x : Audience α ρ) :
    Grows [] [(topic, a)] x (x.register topic a) where
  observers t := by
    simp only [register, Observers.add, seated]
    split
    · next h => rw [← h, Observers.of_set]
    · next h => rw [Observers.of_set_of_ne _ h, List.append_nil]
  next := rfl
  diary := by
    refine ⟨[.joined topic x.next], rfl, rfl, fun t => ?_, rfl⟩
    by_cases h : topic = t <;> simp [Entry.ticketOf?, seated, h]

theorem grows_registerAll (l : List (Topic × α)) (x : Audience α ρ) :
    Grows [] l x (x.registerAll l) := by
  induction l generalizing x with
  | nil => exact .refl x
  | cons a l ih => exact (grows_register a.1 a.2 x).trans (ih _)

theorem rest_registerAll (l : List (Topic × α)) (x : Audience α ρ) :
    (x.registerAll l).rest = x.rest := by
  induction l generalizing x with
  | nil => rfl
  | cons a l ih => exact ih (x.register a.1 a.2)

/-! ### Calls -/

/-- A call leaves the observer its ticket. -/
theorem grows_call (conduct : Conduct α ρ) (occasion : Occasion) (g : Guest α)
    (x : Audience α ρ) :
    Grows [(occasion, g.ticket)] (conduct occasion g.self x.rest).newcomers x
      (x.call conduct occasion g).2 := by
  have hcalled : Grows [(occasion, g.ticket)] [] x { x with
      rest := (conduct occasion g.self x.rest).rest
      diary := x.diary ++
        [Entry.called occasion g.ticket (conduct occasion g.self x.rest).panicked] } :=
    ⟨fun _ => (List.append_nil _).symm, rfl, [_], rfl, rfl, fun _ => rfl, rfl⟩
  exact hcalled.trans (grows_registerAll _ _)

/-- The calls of some observers are a round: what they register is nothing to those who are called
after them. -/
theorem callAll_eq_round (conduct : Conduct α ρ) (occasion : Occasion) (gs : List (Guest α))
    (x : Audience α ρ) :
    ∃ x', Observers.callAll (call conduct occasion) gs x =
        ((conduct.round occasion gs x.rest).guests, x') ∧
      x'.rest = (conduct.round occasion gs x.rest).rest ∧
      Grows (gs.map fun g => (occasion, g.ticket)) (conduct.round occasion gs x.rest).newcomers
        x x' := by
  induction gs generalizing x with
  | nil => exact ⟨x, rfl, rfl, .refl x⟩
  | cons g gs ih =>
      obtain ⟨x', hcalls, hrest, hgrows⟩ := ih (x.call conduct occasion g).2
      have hleft : (x.call conduct occasion g).2.rest =
          (conduct occasion g.self x.rest).rest := rest_registerAll _ _
      rw [hleft] at hcalls hrest hgrows
      refine ⟨x', ?_, hrest, (grows_call conduct occasion g x).trans hgrows⟩
      simp only [Observers.callAll, hcalls]
      rfl

/-- A round leaves everyone's ticket and place. -/
theorem tickets_round (conduct : Conduct α ρ) (occasion : Occasion) (gs : List (Guest α))
    (rest : ρ) :
    (conduct.round occasion gs rest).guests.map Guest.ticket = gs.map Guest.ticket := by
  induction gs generalizing rest with
  | nil => rfl
  | cons g gs ih => exact congrArg (g.ticket :: ·) (ih _)

/-! ### Notifications -/

/-- What a notification comes to. -/
structure Notified (conduct : Conduct α ρ) (occasion : Occasion) (x x' : Audience α ρ) :
    Prop where
  /-- Those who were called are as the round left them, all others as they were, and the newcomers
  come after them. -/
  observers : ∀ t, x'.observers.of t =
    (if t = occasion.topic then (conduct.round occasion (x.observers.of t) x.rest).guests
      else x.observers.of t) ++
    seated t x.next (conduct.round occasion (x.observers.of occasion.topic) x.rest).newcomers
  rest : x'.rest = (conduct.round occasion (x.observers.of occasion.topic) x.rest).rest
  next : x'.next = x.next +
    (conduct.round occasion (x.observers.of occasion.topic) x.rest).newcomers.length
  diary : ∃ news, x'.diary = x.diary ++ news ∧
    Notes ((x.observers.of occasion.topic).map fun g => (occasion, g.ticket))
      (conduct.round occasion (x.observers.of occasion.topic) x.rest).newcomers x.next news

theorem notified (conduct : Conduct α ρ) (occasion : Occasion) (x : Audience α ρ) :
    Notified conduct occasion x (x.notify conduct occasion) := by
  obtain ⟨x', hcalls, hrest, hgrows⟩ := callAll_eq_round conduct occasion
    (x.observers.of occasion.topic)
    { x with observers := x.observers.set occasion.topic [] }
  have hnotify : x.notify conduct occasion = { x' with
      observers := x'.observers.set occasion.topic
        ((conduct.round occasion (x.observers.of occasion.topic) x.rest).guests ++
          x'.observers.of occasion.topic) } := by
    simp only [notify, Observers.notify, hcalls]
  rw [hnotify]
  refine ⟨fun t => ?_, hrest, hgrows.next, hgrows.diary⟩
  have ht := hgrows.observers t
  by_cases h : t = occasion.topic
  · obtain rfl := h
    -- of this topic nobody was there during the round
    rw [Observers.of_set, List.nil_append] at ht
    rw [if_pos rfl, Observers.of_set, ht]
  · rw [Observers.of_set_of_ne _ (Ne.symm h)] at ht
    rw [if_neg h, Observers.of_set_of_ne _ (Ne.symm h), ht]

theorem Notified.tickets (h : Notified conduct occasion x x') (t : Topic) :
    x'.tickets t = x.tickets t ++ (seated t x.next
      (conduct.round occasion (x.observers.of occasion.topic) x.rest).newcomers).map
        Guest.ticket := by
  rw [Audience.tickets, h.observers, List.map_append]
  split
  · rw [tickets_round]
    rfl
  · rfl

/-! ### Runs -/

/-- The lists are what the diary says: everyone who was registered is there once, in the order of
registration, and has a ticket of its own. -/
structure Orderly (x : Audience α ρ) : Prop where
  tickets : ∀ t, x.tickets t = x.diary.filterMap (Entry.ticketOf? t)
  distinct : x.diary.filterMap Entry.ticket? = List.range x.next

theorem Orderly.grows {news : List Entry} (hx : Orderly x)
    (ht : ∀ t, x'.tickets t = x.tickets t ++ (seated t x.next l).map Guest.ticket)
    (hn : x'.next = x.next + l.length) (hd : x'.diary = x.diary ++ news)
    (h : Notes cs l x.next news) : Orderly x' where
  tickets t := by rw [ht, hd, List.filterMap_append, hx.tickets, h.joined]
  distinct := by
    rw [hd, List.filterMap_append, hx.distinct, h.tickets, hn, List.range_eq_range',
      List.range_eq_range', ← List.range'_append_1, Nat.zero_add]

theorem Orderly.move (hx : Orderly x) (conduct : Conduct α ρ) (m : Move α) :
    Orderly (x.move conduct m) := by
  cases m with
  | register topic a =>
      have h := grows_register topic a x
      obtain ⟨news, hd, hnotes⟩ := h.diary
      refine hx.grows (fun t => ?_) h.next hd hnotes
      exact (congrArg (List.map Guest.ticket) (h.observers t)).trans List.map_append
  | notify occasion =>
      have h := notified conduct occasion x
      obtain ⟨news, hd, hnotes⟩ := h.diary
      exact hx.grows h.tickets h.next hd hnotes

theorem orderly_run (conduct : Conduct α ρ) (ms : List (Move α)) (hx : Orderly x) :
    Orderly (x.run conduct ms) := by
  induction ms generalizing x with
  | nil => exact hx
  | cons m ms ih => exact ih (hx.move conduct m)

/-- Whatever was registered and notified before, and whatever the observers do, a notification calls
everyone who is registered for its topic when it begins, once and in the order of registration, and
nobody who is registered meanwhile, whether or not somebody panics.  Those who were called are
as a round of them alone leaves them, everyone else is as before, and the newcomers come after them
in the order in which they came; so everyone who was ever registered is there, once and in order. -/
theorem observers_called_in_turn (conduct : Conduct α ρ) (rest : ρ) (ms : List (Move α))
    (occasion : Occasion) :
    let x := run conduct { rest := rest } ms
    let round := conduct.round occasion (x.observers.of occasion.topic) x.rest
    let x' := x.notify conduct occasion
    (∃ news, x'.diary = x.diary ++ news ∧
      news.filterMap Entry.call? = (x.tickets occasion.topic).map (occasion, ·) ∧
      (∀ t, x'.tickets t = x.tickets t ++ news.filterMap (Entry.ticketOf? t)) ∧
      ∀ n ∈ news.filterMap Entry.ticket?, ∀ t, n ∉ x.tickets t) ∧
    (∀ t, x'.observers.of t =
      (if t = occasion.topic then round.guests else x.observers.of t) ++
        seated t x.next round.newcomers) ∧
    round.guests.map Guest.ticket = x.tickets occasion.topic ∧ x'.rest = round.rest ∧
    (∀ t, x.tickets t = x.diary.filterMap (Entry.ticketOf? t)) ∧
    (x.diary.filterMap Entry.ticket?).Nodup := by
  intro x round x'
  have hx : Orderly x := orderly_run conduct ms ⟨fun t => by cases t <;> rfl, rfl⟩
  have h : Notified conduct occasion x x' := notified conduct occasion x
  obtain ⟨news, hdiary, hnotes⟩ := h.diary
  have hold : ∀ t, ∀ n ∈ x.tickets t, n < x.next := by
    intro t n hn
    rw [hx.tickets, List.mem_filterMap] at hn
    obtain ⟨e, he, hen⟩ := hn
    have hticket : e.ticket? = some n := by
      cases e with
      | joined u m =>
          simp only [Entry.ticketOf?] at hen
          split at hen
          · exact hen
          · cases hen
      | called => cases hen
    have hmem := List.mem_filterMap.mpr ⟨e, he, hticket⟩
    rw [hx.distinct] at hmem
    exact List.mem_range.mp hmem
  refine ⟨⟨news, hdiary, ?_, fun t => ?_, fun n hn t hmem => ?_⟩, fun t => ?_,
    tickets_round .., h.rest, hx.tickets, hx.distinct ▸ List.nodup_range⟩
  · rw [hnotes.calls, tickets, List.map_map]
    rfl
  · rw [h.tickets, hnotes.joined]
  · rw [hnotes.tickets] at hn
    exact absurd (hold t n hmem) (Nat.not_lt.mpr (List.mem_range'_1.mp hn).1)
  · rw [h.observers]
    split
    · next ht => rw [ht]
    · rfl

/-- The first observer panics whenever it is called; the second registers a third one each time. -/
example :
    let conduct : Conduct String Unit := fun _ name _ =>
      if name = "broken" then { self := name, rest := (), panicked := true }
      else if name = "host" then { self := name, rest := (), newcomers := [(.finish, "guest")] }
      else { self := name, rest := () }
    let x := run conduct { rest := () } [.register .finish "broken", .register .finish "host",
      .notify (.event .finished), .notify (.event .finished)]
    x.diary.filterMap Entry.call? = [0, 1, 0, 1, 2].map (.event .finished, ·) ∧
      (x.observers.of .finish).map Guest.self = ["broken", "host", "guest", "guest"] := by
  decide

end Audience
end MediaHost

import MediaHost.Notice

/-!
# Session — Observers

Observers by topic.  While the observers of a topic are called, their list is taken away, so
that an observer may register further ones; these come after the old ones, and are called from
the next time on.
-/

namespace MediaHost

/-- Observers of each topic, in the order of their registration. -/
structure Observers (α : Type) where
  start : List α := []
  finish : List α := []
  error : List α := []
  quality : List α := []
deriving DecidableEq, Repr

namespace Observers
variable {α : Type}

instance : Inhabited (Observers α) := ⟨{}⟩

def of (o : Observers α) : Topic → List α
  | .start => o.start
  | .finish => o.finish
  | .error => o.error
  | .quality => o.quality

def set (o : Observers α) (topic : Topic) (l : List α) : Observers α :=
  match topic with
  | .start => { o with start := l }
  | .finish => { o with finish := l }
  | .error => { o with error := l }
  | .quality => { o with quality := l }

/-- Registers an observer after all others of its topic. -/
def add (o : Observers α) (topic : Topic) (a : α) : Observers α := o.set topic (o.of topic ++ [a])

/-- Calls every observer of a list in order; a call may change the observer and anything else. -/
def callAll {σ : Type} (call : α → σ → α × σ) : List α → σ → List α × σ
  | [], s => ([], s)
  | a :: l, s =>
    let (a, s) := call a s
    let (l, s) := callAll call l s
    (a :: l, s)

/-- Calls the observers of a topic.  `get` and `put` reach the observers within `σ`. -/
def notify {σ : Type} (get : σ → Observers α) (put : Observers α → σ → σ)
    (call : α → σ → α × σ) (topic : Topic) (s : σ) : σ :=
  let taken := (get s).of topic
  let (called, s) := callAll call taken (put ((get s).set topic []) s)
  put ((get s).set topic (called ++ (get s).of topic)) s

end Observers
end MediaHost

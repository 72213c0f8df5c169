import LiveReload.Message

namespace LiveReload

structure Subscription (σ : Type) where
  id : Nat
  sink : σ

structure Roster (σ : Type) where
  subscriptions : List (Subscription σ)
  -- Every subscription ever made here has a smaller identity.
  nextId : Nat

namespace Roster

variable {σ : Type}

def empty : Roster σ := ⟨[], 0⟩

instance : EmptyCollection (Roster σ) := ⟨empty⟩

instance : Inhabited (Roster σ) := ⟨empty⟩

def size (roster : Roster σ) : Nat := roster.subscriptions.length

def isEmpty (roster : Roster σ) : Bool := roster.subscriptions.isEmpty

def add (roster : Roster σ) (sink : σ) : Nat × Roster σ :=
  (roster.nextId,
    ⟨roster.subscriptions ++ [⟨roster.nextId, sink⟩], roster.nextId + 1⟩)

def contains (roster : Roster σ) (id : Nat) : Bool := roster.subscriptions.any (·.id = id)

def remove (roster : Roster σ) (id : Nat) : Roster σ :=
  { roster with subscriptions := roster.subscriptions.filter (·.id ≠ id) }

-- Tells everyone on `roster` as it is now, whatever `deliver` does to the roster meanwhile.
def notify {m : Type → Type} [Monad m] (roster : Roster σ)
    (deliver : Subscription σ → m Unit) : m Unit :=
  roster.subscriptions.forM deliver

-- A one-line account for diagnostics.
def summary (roster : Roster σ) : String :=
  "SubscriberList \x7b len: " ++ toString roster.size ++ " \x7d"

end Roster

end LiveReload

import LiveReload.Roster
import LiveReload.Table

namespace LiveReload

namespace Circle

structure Member where
  name : String
  -- Whom this member shows out, in this order.
  dismisses : List String
deriving DecidableEq

inductive Note where
  | told (name : String) (message : Message)
  -- Whether the other one was still there.
  | dismissed (name other : String) (present : Bool)
deriving DecidableEq

end Circle

-- A name stands for the member who took it last; an earlier one stays on the roster without it.
structure Circle where
  roster : Roster Circle.Member := ∅
  names : Table Nat := ∅
  notes : List Circle.Note := []

namespace Circle

def add (circle : Circle) (member : Member) : Circle :=
  let (id, roster) := circle.roster.add member
  { circle with roster := roster, names := circle.names.insert member.name id }

-- Whether somebody of that name was there; nothing if the name was never taken.
def remove (circle : Circle) (name : String) : Option Bool × Circle :=
  match circle.names.get? name with
  | none => (none, circle)
  | some id =>
    (some (circle.roster.contains id), { circle with roster := circle.roster.remove id })

def note (circle : Circle) (note : Note) : Circle := { circle with notes := circle.notes ++ [note] }

def dismiss (name : String) (circle : Circle) (other : String) : Circle :=
  match circle.remove other with
  | (none, circle) => circle
  | (some present, circle) => circle.note (.dismissed name other present)

def tell (circle : Circle) (message : Message) (member : Member) : Circle :=
  member.dismisses.foldl (dismiss member.name) (circle.note (.told member.name message))

def notify (circle : Circle) (message : Message) : Circle :=
  let deliver (subscription : Subscription Member) : StateM Circle Unit :=
    modify fun circle => circle.tell message subscription.sink
  ((circle.roster.notify deliver).run circle).2

end Circle

end LiveReload

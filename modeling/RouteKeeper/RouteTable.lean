import RouteKeeper.Error
import RouteKeeper.Prefix

/-!
# Route tables

A route table is seen only through four operations. Each may fail, and each may change a state
that belongs to the table and that nobody else looks at; so the same description fits a table in
memory, a table behind a command, and one that fails at will.
-/
namespace RouteKeeper

/-- Where a route sends packets: an interface and perhaps a gateway. -/
structure Hop where
  interface : String
  gateway : Option Address
deriving DecidableEq

/-- A route table with states of type `σ`. -/
structure RouteTable (σ : Type) where
  /-- The interface of the route for exactly this prefix. -/
  owner : Prefix → σ → Except Error (Option String) × σ
  /-- Make a route where there is none. -/
  add : Prefix → Hop → σ → Except Error Unit × σ
  /-- Make a route, in place of the one that is there. -/
  replace : Prefix → Hop → σ → Except Error Unit × σ
  /-- Take away the route for this prefix through this interface. -/
  remove : Prefix → String → σ → Except Error Unit × σ

/-- One operation on a route table. -/
inductive RouteCall where
  | owner
  | add (hop : Hop)
  | replace (hop : Hop)
  | remove (interface : String)
deriving DecidableEq

/-- A record of operations, the newest first, with their destinations and whether they failed. -/
abbrev Journal := List (Prefix × RouteCall × Bool)

/-- The operations of a journal by destination, the oldest first. -/
def Journal.byDestination (j : Journal) : OrderedMap Prefix (List (RouteCall × Bool)) :=
  j.foldl (fun m e => m.insert e.1 (e.2 :: (m.get? e.1).getD [])) .empty

namespace RouteTable

variable {σ : Type}

/-- The same table, with every operation written into a journal. -/
def journaled (T : RouteTable σ) : RouteTable (σ × Journal) :=
  let log {α : Type} (destination : Prefix) (call : RouteCall)
      (step : σ → Except Error α × σ) (s : σ × Journal) : Except Error α × (σ × Journal) :=
    let (answer, t) := step s.1
    let failed := match answer with
      | .ok _ => false
      | .error _ => true
    (answer, (t, (destination, call, failed) :: s.2))
  { owner := fun d => log d .owner (T.owner d)
    add := fun d hop => log d (.add hop) (T.add d hop)
    replace := fun d hop => log d (.replace hop) (T.replace d hop)
    remove := fun d interface => log d (.remove interface) (T.remove d interface) }

end RouteTable

end RouteKeeper

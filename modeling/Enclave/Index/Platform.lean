import Enclave.Double
import Enclave.Index.Node

/-!
# Costs, and what is left to the platform

Where an entry goes is decided by cost: the volume and the margin that boxes take up. Volume counts
first; boxes are often flat, and then the margin decides.

Costs are doubles, and may overflow. Where they come to no number at all, its sign is that of the
machine, and with it the place among all costs. Nor is the last bit of a cube root the same
everywhere, by which many entries are cut into slabs; and a table lists its values in an order of
its own. A `Platform` is one way to settle all this.

Nothing that is promised of an index, or of what is built on one, depends on the platform. The
structure of an index is sound whatever costs come to: they only choose among sound alternatives.
-/

namespace Enclave

/-- What is left to the platform that the library runs on. -/
class Platform where
  /-- How the volumes or the margins of two costs compare. -/
  compareMeasures : Float → Float → Ordering
  /-- The cube root of a count, rounded up. -/
  cubeRoot : Nat → Nat
  /-- The values of a table, in the order in which it lists them. -/
  listed {α : Type} : List α → List α
  listed_perm {α : Type} (values : List α) : (listed values).Perm values

namespace Platform

/-- What is stored of a measure: a computed double that is not a number has its sign set. -/
def storedMeasure (x : Float) : Double := if x.isNaN then ⟨0xFFF8000000000000⟩ else .ofFloat x

/-- The platform on which recorded answers were given. Measures have the order of all doubles, cube
roots are exact, and values are listed by their keys. -/
@[reducible] def reference : Platform where
  compareMeasures x y := (storedMeasure x).totalCompare (storedMeasure y)
  cubeRoot count := ((List.range count).find? fun s => count ≤ s * s * s).getD count
  listed values := values
  listed_perm := .refl

end Platform

/-! ## Costs -/

/-- What a box takes up. -/
structure Cost where
  volume : Float
  margin : Float

namespace Cost

def ofBox (b : Box Float) : Cost := ⟨b.volume, b.margin⟩

/-- What a box takes up more once it covers another. -/
def growth (current added : Box Float) : Cost :=
  let union := current.union added
  ⟨union.volume - current.volume, union.margin - current.margin⟩

/-- What is wasted when two boxes are put under one. -/
def waste (b c : Box Float) : Cost :=
  let union := b.union c
  ⟨union.volume - b.volume - c.volume, union.margin - b.margin - c.margin⟩

protected def compare [Platform] (a b : Cost) : Ordering :=
  (Platform.compareMeasures a.volume b.volume).then
    (Platform.compareMeasures a.margin b.margin)

end Cost

/-- The first of several, unless a later one is better than all before it. -/
def pick {β : Type} (better : β → β → Bool) (first : β) (rest : List β) : β :=
  rest.foldl (fun best candidate => if better candidate best then candidate else best) first

theorem pick_mem {β : Type} (better : β → β → Bool) (rest : List β) :
    ∀ first, pick better first rest ∈ first :: rest := by
  induction rest with
  | nil => exact fun first => List.mem_cons_self
  | cons candidate rest ih =>
    intro first
    have := ih (if better candidate first then candidate else first)
    simp only [pick, List.foldl_cons] at this ⊢
    rcases List.mem_cons.mp this with h | h
    · rw [h]
      split <;> simp
    · exact List.mem_cons_of_mem _ (List.mem_cons_of_mem _ h)

end Enclave

import Enclave.Proofs.Index.Growth

/-!
# Overfull nodes

What happens to the items of a node that holds too much, from the first seed to the last item
(`Split.Halved`): two of them at different places become seeds, and taking out the later one leaves
the other in its place; the others are dealt in turns, of which there are no more than items; in the
end both groups hold at least the minimum, and together just the items. Costs may overflow or be no
numbers, and compare as they like.

So a node of one item too many is settled into two nodes of a size that nodes may have
(`Split.overfull`).
-/

namespace Enclave.Split

variable {α : Type} {min : Nat} {items : List (Boxed α)}

/-- Items split in two, from the seeds to the last turn. -/
structure Halved [Platform] (min : Nat) (items keep moved : List (Boxed α)) : Prop where
  seeds : (seeds items).1 < (seeds items).2 ∧ (seeds items).2 < items.length
  dealt : ∃ e d, items[(Split.seeds items).2]? = some d ∧
    (swapRemove items (Split.seeds items).2)[(Split.seeds items).1]? = some e ∧
    ∃ a b n, n + 2 ≤ items.length ∧ a.items = keep ∧ b.items = moved ∧
      Turns min n ⟨.seed e, .seed d,
        swapRemove (swapRemove items (Split.seeds items).2) (Split.seeds items).1⟩ ⟨a, b, []⟩
  perm : (keep ++ moved).Perm items
  min_le_keep : min ≤ keep.length
  min_le_moved : min ≤ moved.length

theorem halved_split [Platform] (two : 2 ≤ items.length) (enough : 2 * min ≤ items.length) :
    ∃ keep moved, split min items = (keep, moved) ∧ Halved min items keep moved := by
  obtain ⟨e, d, he, hd, perm⟩ := seeds_perm two
  have places := seeds_lt two
  let rest := swapRemove (swapRemove items (seeds items).2) (seeds items).1
  have count : items.length = rest.length + 2 := perm.length_eq
  obtain ⟨n, turns⟩ := turns_deal min (.seed e) (.seed d) rest
  have short : n + 0 ≤ rest.length := turns.length_le
  have heq : split min items = ((deal min (.seed e) (.seed d) rest).1.items,
      (deal min (.seed e) (.seed d) rest).2.items) := by
    simp only [split, he, hd, rest]
  have least := min_le_split two enough
  have whole := split_perm min two
  rw [heq] at least whole
  have inPlace := getElem?_swapRemove_of_lt places.1 places.2
  exact ⟨_, _, heq, places, ⟨e, d, hd, inPlace.trans he, _, _, n, by omega, rfl, rfl, turns⟩, whole,
    least.1, least.2⟩

/-- Of at least twice the minimum, both groups get at least the minimum, and nothing is lost or
doubled; so a node of one item too many becomes two nodes that hold neither too much nor too
little. -/
theorem overfull [Platform] :
    (∀ (min : Nat) (items : List (Boxed α)), 2 ≤ min → 2 * min ≤ items.length →
      ∃ keep moved, split min items = (keep, moved) ∧ Halved min items keep moved) ∧
    ∀ (f : Fanout) (items : List (Boxed α)), f.faults = [] → items.length = f.max + 1 →
      ∃ keep moved, f.settle items = (keep, some moved) ∧ Halved f.min items keep moved ∧
        keep.length ≤ f.max ∧ moved.length ≤ f.max := by
  constructor
  · intro min items two enough
    exact halved_split (by omega) enough
  · intro f items sound tooMany
    obtain ⟨-, two, half⟩ := f.faults_eq_nil_iff.mp sound
    have enough : 2 * f.min ≤ items.length := by omega
    obtain ⟨keep, moved, heq, halved⟩ := halved_split (by omega) enough
    have total := halved.perm.length_eq
    have least := halved.min_le_keep
    have least' := halved.min_le_moved
    rw [List.length_append] at total
    refine ⟨keep, moved, ?_, halved, by omega, by omega⟩
    rw [Fanout.settle, if_neg (by omega), heq]

/-- Five boxes for a node of at most four: of infinite volume, with a corner that is no number, and
three alike. What the first two waste together is no number, and they are split all the same. -/
theorem overfull_of_five_boxes : letI := Platform.reference
    ∃ (vast broken unit : Boxed Nat) (items : List (Boxed Nat)),
    items = [vast, broken, unit, unit, unit] ∧
    (Cost.waste vast.box broken.box).volume.isNaN = true ∧ 2 ≤ 2 ∧ 2 * 2 ≤ items.length ∧
    Fanout.faults ⟨4, 2⟩ = [] ∧ items.length = 4 + 1 ∧
    (∃ keep moved, split 2 items = (keep, moved) ∧ Halved 2 items keep moved) ∧
    ∃ keep moved, Fanout.settle ⟨4, 2⟩ items = (keep, some moved) ∧ Halved 2 items keep moved ∧
      keep.length ≤ 4 ∧ moved.length ≤ 4 := by
  let := Platform.reference
  let vast : Boxed Nat := ⟨⟨⟨-1e300, -1e300, -1e300⟩, ⟨1e300, 1e300, 1e300⟩⟩, 0⟩
  let broken : Boxed Nat := ⟨⟨⟨0.0 / 0.0, 0.0, 0.0⟩, ⟨1.0, 1.0, 1.0⟩⟩, 1⟩
  let unit : Boxed Nat := ⟨⟨⟨0.0, 0.0, 0.0⟩, ⟨1.0, 1.0, 1.0⟩⟩, 2⟩
  let items := [vast, broken, unit, unit, unit]
  have two : 2 ≤ 2 := Nat.le_refl 2
  have enough : 2 * 2 ≤ items.length := by decide
  have sound : Fanout.faults ⟨4, 2⟩ = [] := by decide
  exact ⟨vast, broken, unit, items, rfl, by decide +kernel, two, enough, sound, rfl,
    overfull.1 2 items two enough, overfull.2 ⟨4, 2⟩ items sound rfl⟩

end Enclave.Split

import Mathlib.Logic.ExistsUnique
import Mathlib.Logic.Relation
import Mathlib.Order.Basic
import Enclave.Table

/-!
# The edge that closes a cycle

Where every key has at most one edge out, as a region has at most one parent, and edges are added in
the order of their keys, a cycle is closed by the edge of its greatest key: all others are there
before it (`reflTransGen_iff_closes`). An edge off every cycle closes none. Each cycle has one such
key (`existsUnique_closes`), so that leaving out the edges that would close a cycle takes exactly
one edge from each.
-/

namespace Enclave

open Relation (ReflTransGen TransGen)

variable {κ : Type} [Ord κ] {edge : κ → κ → Prop} {a b k p : κ}

/-- The key lies on a cycle, and nothing that lies on a cycle with it is greater. -/
structure Closes (edge : κ → κ → Prop) (k : κ) : Prop where
  loop : TransGen edge k k
  greatest : ∀ a, TransGen edge k a → TransGen edge a k → (compare a k).isLE = true

variable [Std.TransOrd κ]

/-- Some key of a list is greatest among those that have a property, if any has it. -/
theorem exists_greatest {P : κ → Prop} : ∀ (l : List κ), (∃ a ∈ l, P a) →
    ∃ a, P a ∧ ∀ b ∈ l, P b → (compare b a).isLE = true
  | [], ⟨_, h, _⟩ => absurd h List.not_mem_nil
  | c :: l, found => by
    by_cases rest : ∃ a ∈ l, P a
    · obtain ⟨a, ha, greatest⟩ := exists_greatest l rest
      by_cases higher : P c ∧ compare a c = .lt
      · refine ⟨c, higher.1, fun b hb hPb => ?_⟩
        rcases List.mem_cons.mp hb with rfl | hb
        · exact Ordering.isLE_of_eq_eq Std.ReflCmp.compare_self
        · exact Std.TransCmp.isLE_trans (greatest b hb hPb) (Ordering.isLE_of_eq_lt higher.2)
      · refine ⟨a, ha, fun b hb hPb => ?_⟩
        rcases List.mem_cons.mp hb with rfl | hb
        · exact Classical.byContradiction fun not =>
            higher ⟨hPb, Std.OrientedCmp.lt_of_not_isLE not⟩
        · exact greatest b hb hPb
    · obtain ⟨a, ha, hPa⟩ := found
      have here : ∀ b ∈ c :: l, P b → b = c := fun b hb hPb =>
        (List.mem_cons.mp hb).resolve_right fun hb => rest ⟨b, hb, hPb⟩
      refine ⟨c, here a ha hPa ▸ hPa, fun b hb hPb => ?_⟩
      exact here b hb hPb ▸ Ordering.isLE_of_eq_eq Std.ReflCmp.compare_self

variable [Std.LawfulEqOrd κ]

/-- Each cycle has one key that closes it. -/
theorem existsUnique_closes {l : List κ} (listed : ∀ a b, edge a b → a ∈ l)
    (loop : TransGen edge k k) :
    ∃! a, (TransGen edge k a ∧ TransGen edge a k) ∧ Closes edge a := by
  have source : ∀ {a b}, TransGen edge a b → a ∈ l := fun path => by
    obtain ⟨c, first, -⟩ := TransGen.head'_iff.mp path
    exact listed _ c first
  obtain ⟨a, ⟨out, back⟩, greatest⟩ :=
    exists_greatest (P := fun a => TransGen edge k a ∧ TransGen edge a k) l
      ⟨k, source loop, loop, loop⟩
  refine ⟨a, ⟨⟨out, back⟩, back.trans out, fun b hb hb' => ?_⟩, ?_⟩
  · exact greatest b (source hb') ⟨out.trans hb, hb'.trans back⟩
  · rintro b ⟨⟨out', back'⟩, closes⟩
    have le := greatest b (source back') ⟨out', back'⟩
    have ge := closes.greatest a (back'.trans out) (back.trans out')
    exact Std.LawfulEqCmp.eq_of_compare (Std.OrientedCmp.isLE_antisymm le ge)

/-- When the edge of `k` is to be added, those of lesser keys stand, except where they would close a
cycle or lead to what is not known. Then its end leads back to `k` exactly if `k` closes a cycle. -/
theorem reflTransGen_iff_closes {known : κ → Prop} {standing : κ → κ → Prop}
    (functional : ∀ {a b c}, edge a b → edge a c → b = c) (sources : ∀ {a b}, edge a b → known a)
    (standing_iff : ∀ a b, standing a b ↔
      compare a k = .lt ∧ edge a b ∧ known b ∧ ¬ Closes edge a)
    (toEnd : edge k p) : ReflTransGen standing p k ↔ Closes edge k := by
  have isEdge : ∀ a b, standing a b → edge a b := fun a b h => ((standing_iff a b).mp h).2.1
  constructor
  · intro back
    have loop : TransGen edge k k := .head' toEnd (ReflTransGen.mono isEdge _ _ back)
    -- Whatever `k` leads to is passed on the way back from its end.
    have passed : ∀ a, TransGen edge k a → ReflTransGen standing a k := by
      intro a path
      induction path with
      | single first => exact functional toEnd first ▸ back
      | tail _ last ih =>
        rcases ih.cases_head with rfl | ⟨c, next, back⟩
        · exact functional toEnd last ▸ back
        · exact functional (isEdge _ c next) last ▸ back
    refine ⟨loop, fun a path _ => ?_⟩
    rcases (passed a path).cases_head with rfl | ⟨b, next, -⟩
    · exact Ordering.isLE_of_eq_eq Std.ReflCmp.compare_self
    · exact Ordering.isLE_of_eq_lt ((standing_iff a b).mp next).1
  · intro closes
    obtain ⟨b, first, back⟩ := TransGen.head'_iff.mp closes.loop
    obtain rfl := functional toEnd first
    -- All edges of the cycle but the last one stand already.
    have standing_of : ∀ {a}, ReflTransGen edge a k → TransGen edge k a →
        ReflTransGen standing a k := fun {a} back => by
      induction back using ReflTransGen.head_induction_on with
      | refl => exact fun _ => .refl
      | @head a c next rest ih =>
        intro path
        by_cases same : a = k
        · exact same ▸ .refl
        · have lt : compare a k = .lt :=
            (Ordering.isLE_iff_eq_lt_or_eq_eq.mp
              (closes.greatest a path (.head' next rest))).resolve_right
                fun eq => same (Std.LawfulEqCmp.eq_of_compare eq)
          have knownEnd : known c := by
            rcases rest.cases_head with rfl | ⟨d, further, -⟩
            · exact sources toEnd
            · exact sources further
          have open' : ¬ Closes edge a := by
            intro closes'
            have ge := closes'.greatest k (.head' next rest) path
            exact same (Std.LawfulEqCmp.eq_of_compare
              (Std.OrientedCmp.isLE_antisymm (Ordering.isLE_of_eq_lt lt) ge))
          exact .head ((standing_iff a c).mpr ⟨lt, next, knownEnd, open'⟩) (ih (path.tail next))
    exact standing_of back (.single toEnd)

end Enclave

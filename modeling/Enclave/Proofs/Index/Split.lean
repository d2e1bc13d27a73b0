import Mathlib.Data.List.Perm.Basic
import Enclave.Index.Split

/-!
# What a split keeps

A split hands every item to one of the two groups (`Split.split_perm`), and both groups get at least
the minimum where there are enough items for two (`Split.min_le_split`).

The items are dealt in turns, and nothing here looks at what a cost comes to: costs only choose which
of the items left is dealt next and to which group, and a turn may choose any (`Split.Turn`). Every
turn leaves fewer items, keeps all of them and keeps enough of them (`Split.Enough`), and dealing is a
run of such turns until none is left (`Split.turns_deal`).
-/

namespace Enclave

variable {α : Type}

/-! ## Taking an item out -/

/-- Before the last place, the last item stands where the one taken out stood. -/
theorem swapRemove_concat_of_lt (items : List α) (last : α) {i : Nat} (h : i < items.length) :
    swapRemove (items ++ [last]) i = items.set i last := by
  simp [swapRemove, List.set_append_left _ _ h]

theorem swapRemove_concat_length (items : List α) (last : α) :
    swapRemove (items ++ [last]) items.length = items := by
  simp [swapRemove]

/-- The item taken out and those left are all that there were. -/
theorem swapRemove_perm {items : List α} {i : Nat} {e : α} (h : items[i]? = some e) :
    items.Perm (e :: swapRemove items i) := by
  obtain ⟨hi, rfl⟩ := List.getElem?_eq_some_iff.mp h
  rcases List.eq_nil_or_concat items with rfl | ⟨init, last, rfl⟩
  · exact absurd hi (Nat.not_lt_zero i)
  simp only [List.concat_eq_append, List.length_append, List.length_singleton] at hi ⊢
  rcases Nat.lt_succ_iff_lt_or_eq.mp hi with hlt | rfl
  · rw [swapRemove_concat_of_lt init last hlt, List.getElem_append_left hlt]
    have here : (init[i] :: init.eraseIdx i).Perm init := List.getElem_cons_eraseIdx_perm hlt
    have there : (init.set i last).Perm (last :: init.eraseIdx i) :=
      List.set_perm_cons_eraseIdx hlt last
    calc (init ++ [last]).Perm (last :: init) := List.perm_append_singleton last init
      _ |>.Perm (last :: init[i] :: init.eraseIdx i) := here.symm.cons last
      _ |>.Perm (init[i] :: last :: init.eraseIdx i) := .swap _ _ _
      _ |>.Perm (init[i] :: init.set i last) := there.symm.cons _
  · rw [swapRemove_concat_length]
    simp

theorem getElem?_swapRemove_of_lt {items : List α} {i j : Nat} (hji : j < i)
    (hi : i < items.length) : (swapRemove items i)[j]? = items[j]? := by
  rcases List.eq_nil_or_concat items with rfl | ⟨init, last, rfl⟩
  · exact absurd hi (Nat.not_lt_zero i)
  simp only [List.concat_eq_append, List.length_append, List.length_singleton] at hi ⊢
  rcases Nat.lt_succ_iff_lt_or_eq.mp hi with hlt | rfl
  · rw [swapRemove_concat_of_lt init last hlt, List.getElem?_set_ne (by omega),
      List.getElem?_append_left (by omega)]
  · rw [swapRemove_concat_length, List.getElem?_append_left hji]

namespace Split

/-! ## Seeds -/

theorem mem_pairs {items : List (Boxed α)} {p : Pair} (h : p ∈ pairs items) :
    p.first < p.second ∧ p.second < items.length := by
  obtain ⟨⟨e, i⟩, -, hp⟩ := List.mem_flatMap.mp h
  obtain ⟨⟨d, j⟩, hd, rfl⟩ := List.mem_map.mp hp
  obtain ⟨k, hk⟩ := List.mem_iff_getElem?.mp hd
  rw [List.getElem?_drop, List.getElem?_zipIdx] at hk
  obtain ⟨x, hx, hpair⟩ := Option.map_eq_some_iff.mp hk
  obtain ⟨rfl, rfl⟩ := Prod.mk.inj hpair
  have hlt := (List.getElem?_eq_some_iff.mp hx).1
  exact ⟨by dsimp only; omega, by dsimp only; omega⟩

/-- The seeds are two places of the list, the lesser first. -/
theorem seeds_lt [Platform] {items : List (Boxed α)} (h : 2 ≤ items.length) :
    (seeds items).1 < (seeds items).2 ∧ (seeds items).2 < items.length := by
  unfold seeds
  split
  · exact ⟨Nat.zero_lt_one, h⟩
  next p ps hpairs => exact mem_pairs (hpairs ▸ pick_mem _ ps p)

/-! ## Dealing -/

/-- The item dealt next is one of those left. -/
theorem nextPlace_lt (a b : Group α) {rest : List (Boxed α)} (h : rest ≠ []) :
    nextPlace a b rest < rest.length := by
  dsimp only [nextPlace]
  generalize hranked : rest.zipIdx.map _ = ranked
  rcases List.mem_cons.mp (pick_mem (fun p q => q.1 < p.1) ranked (-1.0 / 0.0, 0)) with hp | hp
  · rw [hp]
    exact List.length_pos_iff.mpr h
  · generalize pick (fun p q => q.1 < p.1) (-1.0 / 0.0, 0) ranked = chosen at hp ⊢
    subst hranked
    obtain ⟨⟨e, i⟩, he, rfl⟩ := List.mem_map.mp hp
    exact (List.getElem?_eq_some_iff.mp (List.mem_zipIdx_iff_getElem?.mp he)).1

theorem getElem?_nextPlace_eq_none {a b : Group α} {rest : List (Boxed α)}
    (h : rest[nextPlace a b rest]? = none) : rest = [] :=
  Classical.byContradiction fun ne =>
    Nat.not_le.mpr (nextPlace_lt a b ne) (List.getElem?_eq_none_iff.mp h)

theorem foldl_add_items (rest : List (Boxed α)) (g : Group α) :
    (rest.foldl Group.add g).items = g.items ++ rest := by
  induction rest generalizing g with
  | nil => simp
  | cons e rest ih => simp [ih, Group.add]

/-- Two groups and the items that are left to deal. -/
structure Dealing (α : Type) where
  first : Group α
  second : Group α
  rest : List (Boxed α)

/-- One turn: a group that would otherwise stay below the minimum takes all that is left, or any one
of the items left goes to either group. -/
inductive Turn (min : Nat) : Dealing α → Dealing α → Prop
  | fillFirst {a b : Group α} {rest : List (Boxed α)} : rest ≠ [] → a.size + rest.length ≤ min →
      Turn min ⟨a, b, rest⟩ ⟨rest.foldl Group.add a, b, []⟩
  | fillSecond {a b : Group α} {rest : List (Boxed α)} : rest ≠ [] → b.size + rest.length ≤ min →
      Turn min ⟨a, b, rest⟩ ⟨a, rest.foldl Group.add b, []⟩
  | toFirst {a b : Group α} {rest : List (Boxed α)} {i : Nat} {e : Boxed α} : rest[i]? = some e →
      min < a.size + rest.length → min < b.size + rest.length →
      Turn min ⟨a, b, rest⟩ ⟨a.add e, b, swapRemove rest i⟩
  | toSecond {a b : Group α} {rest : List (Boxed α)} {i : Nat} {e : Boxed α} : rest[i]? = some e →
      min < a.size + rest.length → min < b.size + rest.length →
      Turn min ⟨a, b, rest⟩ ⟨a, b.add e, swapRemove rest i⟩

/-- A number of turns, one after the other. -/
inductive Turns (min : Nat) : Nat → Dealing α → Dealing α → Prop
  | done (s : Dealing α) : Turns min 0 s s
  | next {n : Nat} {s t u : Dealing α} : Turn min s t → Turns min n t u → Turns min (n + 1) s u

/-- Dealing takes turns until no item is left. -/
theorem turns_deal [Platform] (min : Nat) (a b : Group α) (rest : List (Boxed α)) :
    ∃ n, Turns min n ⟨a, b, rest⟩ ⟨(deal min a b rest).1, (deal min a b rest).2, []⟩ := by
  fun_induction deal min a b rest with
  | case1 a b rest h =>
    rw [getElem?_nextPlace_eq_none h]
    exact ⟨0, .done _⟩
  | case2 a b rest e h topUp =>
    exact ⟨1, .next (.fillFirst (List.ne_nil_of_mem (List.mem_of_getElem? h)) topUp) (.done _)⟩
  | case3 a b rest e h _ topUp =>
    exact ⟨1, .next (.fillSecond (List.ne_nil_of_mem (List.mem_of_getElem? h)) topUp) (.done _)⟩
  | case4 a b rest e h notA notB left toFirst ih =>
    obtain ⟨n, turns⟩ := ih
    exact ⟨n + 1, .next (.toFirst h (Nat.not_le.mp notA) (Nat.not_le.mp notB)) turns⟩
  | case5 a b rest e h notA notB left toSecond ih =>
    obtain ⟨n, turns⟩ := ih
    exact ⟨n + 1, .next (.toSecond h (Nat.not_le.mp notA) (Nat.not_le.mp notB)) turns⟩

/-! ## What turns keep -/

variable {min n : Nat} {s t : Dealing α}

theorem Turn.rest_lt (turn : Turn min s t) : t.rest.length < s.rest.length := by
  cases turn with
  | fillFirst some | fillSecond some => exact List.length_pos_iff.mpr some
  | toFirst h | toSecond h =>
    have fewer := (swapRemove_perm h).length_eq
    exact Nat.lt_of_succ_le (Nat.le_of_eq fewer.symm)

/-- Turns come to an end: there are no more of them than items that they deal. -/
theorem Turns.length_le (turns : Turns min n s t) : n + t.rest.length ≤ s.rest.length := by
  induction turns with
  | done => exact Nat.le_of_eq (Nat.zero_add _)
  | next turn _ ih =>
    have := turn.rest_lt
    omega

/-- All items, dealt or left. -/
def Dealing.items (s : Dealing α) : List (Boxed α) := s.first.items ++ s.second.items ++ s.rest

theorem Turn.perm (turn : Turn min s t) : t.items.Perm s.items := by
  cases turn with
  | @fillFirst a b rest =>
    simp only [Dealing.items, foldl_add_items, List.append_nil, List.append_assoc]
    exact List.perm_append_comm.append_left _
  | @fillSecond a b rest =>
    simp only [Dealing.items, foldl_add_items, List.append_nil, List.append_assoc]
    exact .refl _
  | @toFirst a b rest i e h =>
    simp only [Dealing.items, Group.add, List.append_assoc, List.singleton_append]
    exact (((swapRemove_perm h).append_left b.items).trans
      List.perm_middle).symm.append_left a.items
  | @toSecond a b rest i e h =>
    simp only [Dealing.items, Group.add, List.append_assoc, List.singleton_append]
    exact ((swapRemove_perm h).symm.append_left b.items).append_left a.items

theorem Turns.perm (turns : Turns min n s t) : t.items.Perm s.items := by
  induction turns with
  | done => exact .refl _
  | next turn _ ih => exact ih.trans turn.perm

/-- The items left can bring each of the groups to the minimum, and there are enough for both. -/
structure Enough (min : Nat) (s : Dealing α) : Prop where
  first : min ≤ s.first.size + s.rest.length
  second : min ≤ s.second.size + s.rest.length
  both : 2 * min ≤ s.first.size + s.second.size + s.rest.length

theorem size_add (g : Group α) (e : Boxed α) : (g.add e).size = g.size + 1 := by
  simp [Group.size, Group.add]

theorem size_foldl_add (rest : List (Boxed α)) (g : Group α) :
    (rest.foldl Group.add g).size = g.size + rest.length := by
  simp [Group.size, foldl_add_items]

theorem Turn.enough (turn : Turn min s t) (enough : Enough min s) : Enough min t := by
  obtain ⟨first, second, both⟩ := enough
  cases turn with
  | fillFirst _ short =>
    -- the first group is brought to the minimum just so, and what else there is is in the second
    dsimp only at first both
    constructor <;> simp only [size_foldl_add, List.length_nil] <;> omega
  | fillSecond _ short =>
    dsimp only at second both
    constructor <;> simp only [size_foldl_add, List.length_nil] <;> omega
  | toFirst h | toSecond h =>
    have fewer := (swapRemove_perm h).length_eq
    rw [List.length_cons] at fewer
    dsimp only at first second both
    constructor <;> simp only [size_add] <;> omega

theorem Turns.enough (turns : Turns min n s t) (enough : Enough min s) : Enough min t := by
  induction turns with
  | done => exact enough
  | next turn _ ih => exact ih (turn.enough enough)

/-- Every item is in the group it started in, or in the one it was dealt to. -/
theorem deal_perm [Platform] (min : Nat) (a b : Group α) (rest : List (Boxed α)) :
    ((deal min a b rest).1.items ++ (deal min a b rest).2.items).Perm
      (a.items ++ b.items ++ rest) := by
  obtain ⟨n, turns⟩ := turns_deal min a b rest
  have perm := turns.perm
  rwa [Dealing.items, List.append_nil] at perm

/-- Groups that can each be brought to the minimum by the items left are both brought to it, where
there are items enough for two. -/
theorem min_le_deal [Platform] {a b : Group α} {rest : List (Boxed α)}
    (enough : Enough min ⟨a, b, rest⟩) :
    min ≤ (deal min a b rest).1.size ∧ min ≤ (deal min a b rest).2.size := by
  obtain ⟨n, turns⟩ := turns_deal min a b rest
  have dealt := turns.enough enough
  exact ⟨dealt.first, dealt.second⟩

/-! ## Splitting -/

/-- The two seeds and the items dealt are all the items. -/
theorem seeds_perm [Platform] {items : List (Boxed α)} (h : 2 ≤ items.length) :
    ∃ e d, items[(seeds items).1]? = some e ∧ items[(seeds items).2]? = some d ∧
      items.Perm (d :: e :: swapRemove (swapRemove items (seeds items).2) (seeds items).1) := by
  obtain ⟨hlt, hlen⟩ := seeds_lt h
  obtain ⟨d, hd⟩ : ∃ d, items[(seeds items).2]? = some d := ⟨_, List.getElem?_eq_getElem hlen⟩
  obtain ⟨e, he⟩ : ∃ e, items[(seeds items).1]? = some e :=
    ⟨_, List.getElem?_eq_getElem (Nat.lt_trans hlt hlen)⟩
  refine ⟨e, d, he, hd, (swapRemove_perm hd).trans ?_⟩
  -- the lesser seed stands where it stood after the greater one is taken out
  rw [← getElem?_swapRemove_of_lt hlt hlen] at he
  exact (swapRemove_perm he).cons d

/-- A split deals out two seeds and the other items. -/
theorem split_eq_deal [Platform] {items : List (Boxed α)} (min : Nat) (h : 2 ≤ items.length) :
    ∃ e d rest, items.Perm (d :: e :: rest) ∧ split min items =
      ((deal min (.seed e) (.seed d) rest).1.items,
        (deal min (.seed e) (.seed d) rest).2.items) := by
  obtain ⟨e, d, he, hd, perm⟩ := seeds_perm h
  refine ⟨e, d, _, perm, ?_⟩
  simp only [split, he, hd]

theorem split_perm [Platform] {items : List (Boxed α)} (min : Nat) (h : 2 ≤ items.length) :
    ((split min items).1 ++ (split min items).2).Perm items := by
  obtain ⟨e, d, rest, perm, heq⟩ := split_eq_deal min h
  rw [heq]
  exact (deal_perm min (.seed e) (.seed d) rest).trans ((List.Perm.swap d e rest).trans perm.symm)

theorem min_le_split [Platform] {items : List (Boxed α)} {min : Nat} (h : 2 ≤ items.length)
    (enough : 2 * min ≤ items.length) :
    min ≤ (split min items).1.length ∧ min ≤ (split min items).2.length := by
  obtain ⟨e, d, rest, perm, heq⟩ := split_eq_deal min h
  have count : items.length = rest.length + 2 := perm.length_eq
  rw [heq]
  have seedSize : ∀ e : Boxed α, (Group.seed e).size = 1 := fun _ => rfl
  refine min_le_deal ⟨?_, ?_, ?_⟩ <;> simp only [seedSize] <;> omega

end Split

end Enclave

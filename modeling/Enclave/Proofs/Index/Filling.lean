import Enclave.Proofs.Index.Tree
import Enclave.Proofs.Index.Refinement
import Mathlib.Data.List.Duplicate

/-!
# Packing an index agrees with filling it key by key

An index of many keys is packed from the bottom, one that is filled key by key grows and splits. Their
nodes lie differently. But one is given exactly if the other is, what refuses the one refuses the
other, and nothing that is asked of the two tells them apart, then or after any further commands
(`RTree.agree_ofList_oneByOne`). Only the order of the keys that a query finds may differ.

Of how the nodes came to lie nothing is used but soundness: two sound indexes of one table answer
alike (`RTree.Records.sameAnswers`), and commands keep the tables equal (`RTree.Records.run`).
-/

namespace Enclave

/-- Two runs are refused alike, or both give something, and the two are related. -/
inductive Agree {ε α β : Type} (related : α → β → Prop) : Except ε α → Except ε β → Prop
  | refused (e : ε) : Agree related (.error e) (.error e)
  | granted {a : α} {b : β} : related a b → Agree related (.ok a) (.ok b)

/-- Runs that come to the same by two views agree, if what they give is related wherever the views
are the same. -/
theorem Agree.of_map_eq {ε α β γ : Type} {related : α → β → Prop} {f : α → γ} {g : β → γ}
    {x : Except ε α} {y : Except ε β} (same : x.map f = y.map g)
    (relate : ∀ a b, x = .ok a → y = .ok b → f a = g b → related a b) : Agree related x y := by
  cases x with
  | error e =>
    cases y with
    | error e' =>
      cases same
      exact .refused e
    | ok b => cases same
  | ok a =>
    cases y with
    | error e => cases same
    | ok b => exact .granted (relate a b rfl rfl (Except.ok.inj same))

namespace RTree

variable {κ : Type} [Ord κ] [Std.TransOrd κ] [ToString κ]

/-- Keys are put in one after the other, until one is refused. -/
def fill [Platform] (t : RTree κ) (items : List (κ × Box Float)) : Except IndexFault (RTree κ) :=
  items.foldlM (fun t e => t.insert e.1 e.2) t

/-- The index of many keys that is filled key by key. -/
def oneByOne [Platform] (f : Fanout) (items : List (κ × Box Float)) :
    Except IndexFault (RTree κ) := do
  let start ← make f
  start.fill items

/-- What is told of the two indexes is the same, the order of found keys aside. -/
structure SameAnswers (t u : RTree κ) : Prop where
  boxes_eq : t.boxes = u.boxes
  bounds : (t.bounds? == u.bounds?) = true
  keysAt : ∀ p, (t.keysAt p).Perm (u.keysAt p)
  keysMeeting : ∀ area, (t.keysMeeting area).Perm (u.keysMeeting area)
  audit : t.flaw? = none ∧ u.flaw? = none

/-- No commands tell the two indexes apart, on any platform. -/
def Interchangeable (t u : RTree κ) : Prop :=
  ∀ (_ : Platform) cs, (Command.run obey t cs).2 = (Command.run obey u cs).2 ∧
    SameAnswers (Command.run obey t cs).1 (Command.run obey u cs).1

/-- Why there is no index of some keys: its bounds cannot be used, a box is invalid, or a key comes
twice. -/
inductive Unfillable (f : Fanout) (items : List (κ × Box Float)) : IndexFault → Prop
  | badFanout : f.faults ≠ [] → Unfillable f items (.badFanout f.faults)
  | invalidBox {k : κ} {b : Box Float} {fault : BoxFault} :
    (k, b) ∈ items → b.fault? = some fault → Unfillable f items (.invalidBox b fault)
  | duplicateKey {k : κ} :
    (items.map (·.1)).Duplicate k → Unfillable f items (.duplicateKey (toString k))

/-! ## What is recorded -/

theorem fill_cons [Platform] (t : RTree κ) (k : κ) (b : Box Float) (items : List (κ × Box Float)) :
    t.fill ((k, b) :: items) = t.insert k b >>= fun next => next.fill items :=
  List.foldlM_cons

/-- What is recorded by filling, and why a key is refused, depends on the table alone. -/
theorem boxes_fill [Platform] (t : RTree κ) (items : List (κ × Box Float)) :
    (t.fill items).map (·.boxes) = record t.boxes items := by
  induction items generalizing t with
  | nil => rfl
  | cons e items ih =>
    obtain ⟨k, b⟩ := e
    rw [fill_cons, record, insert_eq, Table.contains]
    cases b.fault? with
    | some fault => rfl
    | none =>
      cases t.boxes.get? k with
      | some _ => rfl
      | none => exact ih _

theorem boxes_oneByOne [Platform] (f : Fanout) (items : List (κ × Box Float)) :
    (oneByOne f items).map (·.boxes) = make f >>= fun start => record start.boxes items := by
  unfold oneByOne
  cases (make f : Except IndexFault (RTree κ)) with
  | error fault => rfl
  | ok start => exact boxes_fill start items

theorem boxes_ofList [Platform] (f : Fanout) (items : List (κ × Box Float)) :
    (ofList f items).map (·.boxes) = make f >>= fun start => record start.boxes items := by
  unfold ofList
  cases (make f : Except IndexFault (RTree κ)) with
  | error fault => rfl
  | ok start =>
    change Except.map _ (record start.boxes items >>= _) = record start.boxes items
    cases record start.boxes items with
    | error fault => rfl
    | ok boxes => rfl

theorem Reachable.fill [Platform] {t u : RTree κ} {items : List (κ × Box Float)} (h : t.Reachable)
    (filled : t.fill items = .ok u) : u.Reachable := by
  induction items generalizing t with
  | nil =>
    cases filled
    exact h
  | cons e items ih =>
    obtain ⟨next, inserted, rest⟩ := bind_eq_ok_iff.mp ((fill_cons ..).symm.trans filled)
    exact ih (h.insert inserted) rest

theorem reachable_oneByOne [Platform] {f : Fanout} {items : List (κ × Box Float)} {t : RTree κ}
    (filled : oneByOne f items = .ok t) : t.Reachable := by
  obtain ⟨start, made, rest⟩ := bind_eq_ok_iff.mp filled
  exact (Reachable.make made).fill rest

/-! ## Refusals -/

variable [Std.LawfulEqOrd κ]

/-- What keeps keys from being recorded lies in them, or one of them is recorded already. -/
theorem Unfillable.of_record {f : Fanout} {items : List (κ × Box Float)} {boxes : Table κ (Box Float)}
    {e : IndexFault} (refused : record boxes items = .error e) : Unfillable f items e ∨
      ∃ k, boxes.contains k = true ∧ k ∈ items.map (·.1) ∧ e = .duplicateKey (toString k) := by
  induction items generalizing boxes with
  | nil => cases refused
  | cons item items ih =>
    obtain ⟨k, b⟩ := item
    unfold record at refused
    cases invalid : b.fault? with
    | some fault =>
      simp only [invalid] at refused
      cases refused
      exact .inl (.invalidBox List.mem_cons_self invalid)
    | none =>
      simp only [invalid] at refused
      by_cases taken : boxes.contains k = true
      · rw [if_pos taken] at refused
        cases refused
        exact .inr ⟨k, taken, List.mem_cons_self, rfl⟩
      · rw [if_neg taken] at refused
        -- What is recorded by then is what was before, or the first key.
        rcases ih refused with later | ⟨k', recorded, again, rfl⟩
        · cases later with
          | badFanout bad => exact .inl (.badFanout bad)
          | invalidBox mem invalid => exact .inl (.invalidBox (List.mem_cons_of_mem _ mem) invalid)
          | duplicateKey twice => exact .inl (.duplicateKey (twice.duplicate_cons _))
        · rcases Table.contains_insert_iff.mp recorded with rfl | before
          · exact .inl (.duplicateKey (.cons_mem again))
          · exact .inr ⟨k', before, List.mem_cons_of_mem _ again, rfl⟩

theorem unfillable_of_ofList [Platform] {f : Fanout} {items : List (κ × Box Float)} {e : IndexFault}
    (refused : ofList f items = .error e) : Unfillable f items e := by
  have refused : (make f >>= fun start => record start.boxes items) = .error e := by
    rw [← boxes_ofList, refused]
    rfl
  unfold make at refused
  cases faults : f.faults with
  | nil =>
    rw [faults] at refused
    rcases Unfillable.of_record refused with here | ⟨k, held, -⟩
    · exact here
    · cases held
  | cons fault rest =>
    rw [faults] at refused
    cases refused
    exact faults ▸ .badFanout (faults ▸ List.cons_ne_nil _ _)

/-! ## Indexes of one table -/

variable {t u : RTree κ} {m : Table κ (Box Float)}

/-- Two indexes of one table answer as a scan of that table does. -/
theorem Records.sameAnswers (ht : t.Records m) (hu : u.Records m) : SameAnswers t u := by
  have boxes : t.boxes = u.boxes := ht.boxes_eq.trans hu.boxes_eq.symm
  have scans (test : Box Float → Bool) : t.scan test = u.scan test := by
    rw [scan, scan, boxes]
  refine ⟨boxes, ?_, fun p => ?_, fun area => ?_, ht.flaw?_eq_none, hu.flaw?_eq_none⟩
  · have keys : t.keys = u.keys := by rw [RTree.keys, RTree.keys, boxes]
    rcases ht.bounds?_cases with ⟨nothing, none⟩ | ⟨something, b, some, cover⟩
    · rw [none, hu.describes.bounds?_eq_none_iff.mpr (keys ▸ nothing)]
      rfl
    · rcases hu.bounds?_cases with ⟨nothing, -⟩ | ⟨-, b', some', cover'⟩
      · exact absurd (keys.trans nothing) something
      · rw [some, some']
        exact (boxes ▸ cover).beq cover'
  · have found := (ht.answers_keysAt p).perm_scan
    rw [scans] at found
    exact found.trans (hu.answers_keysAt p).perm_scan.symm
  · have found := (ht.answers_keysMeeting area).perm_scan
    rw [scans] at found
    exact found.trans (hu.answers_keysMeeting area).perm_scan.symm

theorem Records.interchangeable (ht : t.Records m) (hu : u.Records m) : Interchangeable t u := by
  intro _ cs
  obtain ⟨replies, last⟩ := ht.run cs
  obtain ⟨replies', last'⟩ := hu.run cs
  exact ⟨replies.trans replies'.symm, last.sameAnswers last'⟩

/-- Whatever the bounds and the keys are, an index is packed exactly if it can be filled key by key,
and refused for the same first fault otherwise. The two cannot be told apart. -/
theorem agree_ofList_oneByOne [Platform] (f : Fanout) (items : List (κ × Box Float)) :
    Agree Interchangeable (ofList f items) (oneByOne f items) ∧
      ∀ e, ofList f items = .error e → Unfillable f items e := by
  refine ⟨?_, fun e => unfillable_of_ofList⟩
  apply Agree.of_map_eq ((boxes_ofList f items).trans (boxes_oneByOne f items).symm)
  intro t u packed filled boxes
  have records := (Reachable.ofList packed).sound.records_boxes
  have records' := (reachable_oneByOne filled).sound.records_boxes
  exact records.interchangeable (boxes ▸ records')

/-- Five keys that come in another order than they lie do not fit one leaf: the index that is filled
key by key splits it, and is interchangeable with the packed one. -/
theorem agree_of_five_keys : letI := Platform.reference
    ∃ items : List (Nat × Box Float), items.map (·.1) = [1, 2, 3, 4, 5] ∧
    (oneByOne ⟨4, 2⟩ items).toOption.map (·.height) = some 2 ∧
    Agree Interchangeable (ofList ⟨4, 2⟩ items) (oneByOne ⟨4, 2⟩ items) ∧
      ∀ e, ofList ⟨4, 2⟩ items = .error e → Unfillable ⟨4, 2⟩ items e := by
  let := Platform.reference
  let items : List (Nat × Box Float) := [(1, ⟨⟨0, 0, 0⟩, ⟨1, 1, 1⟩⟩), (2, ⟨⟨8, 0, 0⟩, ⟨9, 1, 1⟩⟩),
    (3, ⟨⟨1, 0, 0⟩, ⟨2, 1, 1⟩⟩), (4, ⟨⟨9, 0, 0⟩, ⟨10, 1, 1⟩⟩), (5, ⟨⟨2, 0, 0⟩, ⟨3, 1, 1⟩⟩)]
  exact ⟨items, rfl, by decide +kernel, agree_ofList_oneByOne ⟨4, 2⟩ items⟩

end RTree

end Enclave

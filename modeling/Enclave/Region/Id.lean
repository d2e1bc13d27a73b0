import Enclave.Table

/-!
# Region and world names

A region is known by an id of ASCII letters, digits and a few marks, which knows no letter case. A
`RegionId` holds its text in lower case, so reading an id back from its own text changes nothing
(`RegionId.parse_text`).

Worlds are known by names of any form.
-/

namespace Enclave

/-- What keeps a text from being a region id. -/
inductive IdFault where
  | empty
  | forbidden
  /-- A fault found by a caller, in the caller's words. -/
  | other (reason : String)
  deriving DecidableEq, Repr

def IdFault.message : IdFault → String
  | empty => "id is empty"
  | forbidden => "allowed characters are A-Z a-z 0-9 _ , ' - + /"
  | other reason => reason

namespace RegionId

/-- Whether a character may stand in an id. -/
def allows (c : Char) : Bool := c.isAlphanum || ['_', ',', '\'', '-', '+', '/'].contains c

/-- Whether a text may be read as an id. -/
def isValid (s : String) : Bool := !s.isEmpty && s.toList.all allows

/-- Whether a text is an id in lower case. -/
def isCanonical (s : String) : Bool := isValid s && s.toList.all fun c => !c.isUpper

end RegionId

/-- The id of a region, in lower case. -/
structure RegionId where
  text : String
  canonical : RegionId.isCanonical text = true
  deriving DecidableEq

namespace RegionId

/-- An allowed character is one of the first 128. -/
theorem toNat_lt_of_allows {c : Char} (h : allows c = true) : c.toNat < 128 := by
  have ranges : c.isAlphanum = (decide ('A'.val ≤ c.val ∧ c.val ≤ 'Z'.val) ||
      (decide ('a'.val ≤ c.val) && decide (c.val ≤ 'z'.val)) ||
      (decide ('0'.val ≤ c.val) && decide (c.val ≤ '9'.val))) := rfl
  simp only [allows, ranges, Bool.or_eq_true, Bool.and_eq_true, decide_eq_true_eq,
    List.contains_eq_mem, List.mem_cons, List.not_mem_nil, or_false] at h
  rcases h with ((⟨-, h⟩ | ⟨-, h⟩) | ⟨-, h⟩) | rfl | rfl | rfl | rfl | rfl | rfl
  · exact Nat.lt_of_le_of_lt (UInt32.le_iff_toNat_le.mp h) (by decide)
  · exact Nat.lt_of_le_of_lt (UInt32.le_iff_toNat_le.mp h) (by decide)
  · exact Nat.lt_of_le_of_lt (UInt32.le_iff_toNat_le.mp h) (by decide)
  all_goals decide

/-- Lower-casing an allowed character gives an allowed one that is not upper case. -/
theorem toLower_allows {c : Char} (h : allows c = true) :
    allows c.toLower = true ∧ c.toLower.isUpper = false := by
  have table : ∀ n, n < 128 → allows (Char.ofNat n) = true →
      allows (Char.ofNat n).toLower = true ∧ (Char.ofNat n).toLower.isUpper = false := by decide
  have := table c.toNat (toNat_lt_of_allows h)
  rw [Char.ofNat_toNat] at this
  exact this h

/-- Reads an id, lower-casing it. -/
def parse (s : String) : Except IdFault RegionId :=
  if s.isEmpty then .error .empty
  else if h : isValid s = true then
    .ok ⟨.ofList (s.toList.map Char.toLower), by
      obtain ⟨hne, hall⟩ := (Bool.and_eq_true _ _).mp h
      have hall := List.all_eq_true.mp hall
      simp only [isCanonical, isValid, String.toList_ofList, Bool.and_eq_true, List.all_eq_true,
        List.forall_mem_map, Bool.not_eq_eq_eq_not, Bool.not_true]
      refine ⟨⟨?_, fun c hc => (toLower_allows (hall c hc)).1⟩,
        fun c hc => (toLower_allows (hall c hc)).2⟩
      simp only [Bool.not_eq_true', String.isEmpty_eq_false_iff] at hne
      simpa using hne⟩
  else .error .forbidden

/-- An id is read back from its own text. -/
theorem parse_text (id : RegionId) : parse id.text = .ok id := by
  obtain ⟨text, canonical⟩ := id
  obtain ⟨hvalid, hlower⟩ := (Bool.and_eq_true _ _).mp canonical
  have hne : text.isEmpty = false := by
    simpa using ((Bool.and_eq_true _ _).mp hvalid).1
  have hmap : text.toList.map Char.toLower = text.toList := by
    rw [List.map_congr_left (g := id) fun c hc => ?_, List.map_id]
    have : c.isUpper = false := by simpa using List.all_eq_true.mp hlower c hc
    exact dif_neg (of_decide_eq_false this)
  simp [parse, hne, hvalid, hmap]

/-- The id that by convention names the region of the whole world. -/
def globalText : String := "__global__"

def global : RegionId := ⟨globalText, by decide⟩

/-- Whether the id is the one that by convention names the region of the whole world. -/
def isGlobal (id : RegionId) : Bool := id.text == globalText

instance : ToString RegionId := ⟨text⟩
instance : Ord RegionId := ⟨compareOn text⟩
instance : Std.TransOrd RegionId := inferInstanceAs (Std.TransCmp (compareOn _))
instance : Std.LawfulEqOrd RegionId where
  eq_of_compare {a b} h := by
    have same : compare a.text b.text = .eq := h
    cases a
    cases b
    simp only [mk.injEq]
    exact Std.LawfulEqCmp.eq_of_compare same

end RegionId

/-- The name of a world. -/
structure WorldName where
  text : String
  deriving DecidableEq, Repr

namespace WorldName

instance : ToString WorldName := ⟨text⟩
instance : Ord WorldName := ⟨compareOn text⟩
instance : Std.TransOrd WorldName := inferInstanceAs (Std.TransCmp (compareOn _))
instance : Std.LawfulEqOrd WorldName where
  eq_of_compare {a b} h := by
    have same : compare a.text b.text = .eq := h
    cases a
    cases b
    exact congrArg mk (Std.LawfulEqCmp.eq_of_compare same)

end WorldName

end Enclave

import Mathlib.Algebra.Group.Nat.Defs

/-!
# `Ququmatz.Lib.Indexing`: indexing that panics

An element, a range and a suffix of a slice, each with the panic for an index that is not in the
slice. What the operations give is said for a slice that is written as its parts: the part of a
concatenation that starts where the parts before it end (`range_append`, `rangeFrom_append`).
-/

set_option autoImplicit false

namespace Ququmatz.Lib

namespace Indexing

/-- Why an access to a slice panics. -/
inductive Panic
  /-- An index past the end. -/
  | index
  /-- A range that starts after its end, or that ends past the slice. -/
  | range
  /-- An index whose computation overflows. -/
  | overflow
deriving DecidableEq, Repr

variable {α : Type}

/-- `s[i]`. -/
def get (s : List α) (i : Nat) : Except Panic α :=
  match s[i]? with
  | some a => .ok a
  | none => .error .index

/-- `&s[a..b]`. -/
def range (s : List α) (a b : Nat) : Except Panic (List α) :=
  if a ≤ b ∧ b ≤ s.length then .ok ((s.drop a).take (b - a)) else .error .range

/-- `&s[a..]`. -/
def rangeFrom (s : List α) (a : Nat) : Except Panic (List α) :=
  if a ≤ s.length then .ok (s.drop a) else .error .range

/-- An element of a part, read out of the whole. -/
theorem get_append {pre part rest : List α} {i : Nat} (h : i < part.length) :
    get (pre ++ part ++ rest) (pre.length + i) = get part i := by
  rw [get, get, List.append_assoc, List.getElem?_append_right (Nat.le_add_right _ _),
    Nat.add_sub_cancel_left, List.getElem?_append_left h]

/-- A prefix of a part, read out of the whole. -/
theorem range_append {s pre part rest : List α} (h : s = pre ++ part ++ rest) {n : Nat}
    (hn : n ≤ part.length) : range s pre.length (pre.length + n) = .ok (part.take n) := by
  subst h
  have hbound : pre.length + n ≤ (pre ++ part ++ rest).length := by
    rw [List.length_append, List.length_append]
    omega
  rw [range, if_pos ⟨Nat.le_add_right _ _, hbound⟩, List.append_assoc, List.drop_left,
    Nat.add_sub_cancel_left, List.take_append_of_le_length hn]

theorem rangeFrom_append {s pre rest : List α} (h : s = pre ++ rest) :
    rangeFrom s pre.length = .ok rest := by
  subst h
  have hbound : pre.length ≤ (pre ++ rest).length := by
    rw [List.length_append]
    omega
  rw [rangeFrom, if_pos hbound, List.drop_left]

theorem exists_prefix {s : List α} {n : Nat} (h : n ≤ s.length) :
    ∃ pre rest, s = pre ++ rest ∧ pre.length = n :=
  ⟨s.take n, s.drop n, (List.take_append_drop n s).symm, List.length_take_of_le h⟩

end Indexing

end Ququmatz.Lib

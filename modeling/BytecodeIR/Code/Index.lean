import BytecodeIR.SortedMap
/-!
How statements and blocks of one method are referred to.

A statement is known by its label and a block by its index; both are 32-bit words, ordered by their
value, and never mixed up.
-/

namespace BytecodeIR.Code

/-- The number of a statement within its method. -/
structure Label where
  val : UInt32
deriving DecidableEq, Inhabited

/-- The position of a block within its method. -/
structure BlockIndex where
  val : UInt32
deriving DecidableEq, Inhabited

namespace Label

/-- The label of the statement at a position. -/
def ofNat (n : Nat) : Label := ⟨.ofNat n⟩

/-- The label as a number. -/
def toNat (l : Label) : Nat := l.val.toNat

/-- The label as listings show it. -/
def text (l : Label) : String := toString l.toNat

end Label

namespace BlockIndex

/-- The index of the block at a position. -/
def ofNat (n : Nat) : BlockIndex := ⟨.ofNat n⟩

/-- The index as a number. -/
def toNat (b : BlockIndex) : Nat := b.val.toNat

/-- The index as messages show it. -/
def text (b : BlockIndex) : String := "#" ++ toString b.toNat

instance : Ord BlockIndex := ⟨compareOn BlockIndex.val⟩

instance : Std.TransOrd BlockIndex := inferInstanceAs (Std.TransCmp (compareOn BlockIndex.val))

instance : Std.LawfulEqOrd BlockIndex where
  compare_self := Std.ReflOrd.compare_self (α := UInt32)
  eq_of_compare {a b} h := by
    have : a.val = b.val := Std.LawfulEqOrd.eq_of_compare (α := UInt32) h
    cases a
    cases b
    simp_all

end BlockIndex

/-- Blocks in relation to blocks: a block is a key if the relation leads somewhere from it. -/
abbrev EdgeMap := SortedMap BlockIndex (List BlockIndex)

end BytecodeIR.Code

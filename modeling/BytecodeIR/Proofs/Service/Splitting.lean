/-
What a result is split into.

A part has as many elements as the length of the result divided by the number of parts
that are asked for, rounded down, and one at least.  Rounding down makes parts that are
too small rather than too large, so there may be more of them than were asked for, but
never twice as many: of `s * p + r` elements, where `r < p`, the first `s * p` fill `p`
parts, and `r` more elements fill fewer than `p` of `s` elements each.

That the parts are no pieces of nothing rests on two things which are easily lost: the
number of parts is taken to be one if none are asked for, and the size of a part to be
one if more parts are asked for than there are elements.
-/
import BytecodeIR.Proofs.Service.Transport
import Mathlib.Tactic.Ring

namespace BytecodeIR.Service

/-! ### Pieces of a list -/

section Pieces

variable {α : Type} {more : Nat} {xs piece : List α}

theorem ne_nil_of_mem_piecesOf (h : piece ∈ piecesOf more xs) : piece ≠ [] := by
  induction xs using piecesOf.induct more with
  | case1 =>
      rw [piecesOf] at h
      cases h
  | case2 a rest ih =>
      rw [piecesOf] at h
      rcases List.mem_cons.mp h with rfl | h
      · exact List.cons_ne_nil a _
      · exact ih h

theorem length_le_of_mem_piecesOf (h : piece ∈ piecesOf more xs) : piece.length ≤ more + 1 := by
  induction xs using piecesOf.induct more with
  | case1 =>
      rw [piecesOf] at h
      cases h
  | case2 a rest ih =>
      rw [piecesOf] at h
      rcases List.mem_cons.mp h with rfl | h
      · rw [List.length_cons, List.length_take]
        omega
      · exact ih h

/-- A list of elements has a piece. -/
theorem piecesOf_eq_nil : piecesOf more xs = [] ↔ xs = [] := by
  cases xs with
  | nil => simp [piecesOf]
  | cons a rest => simp [piecesOf]

/-- Every piece but the last is full. -/
theorem length_of_mem_dropLast_piecesOf (h : piece ∈ (piecesOf more xs).dropLast) :
    piece.length = more + 1 := by
  induction xs using piecesOf.induct more with
  | case1 =>
      rw [piecesOf] at h
      cases h
  | case2 a rest ih =>
      rw [piecesOf] at h
      by_cases hlast : piecesOf more (rest.drop more) = []
      · rw [hlast] at h
        cases h
      · rw [List.dropLast_cons_of_ne_nil hlast] at h
        rcases List.mem_cons.mp h with rfl | h
        · -- Another piece follows, so there were enough elements for this one.
          have hrest : rest.drop more ≠ [] := fun hnil => hlast (piecesOf_eq_nil.mpr hnil)
          have hlt : more < rest.length := by
            rw [ne_eq, List.drop_eq_nil_iff] at hrest
            omega
          rw [List.length_cons, List.length_take]
          omega
        · exact ih h

/-- There are as many pieces as the length divided by their size, rounded up. -/
theorem length_piecesOf (more : Nat) (xs : List α) :
    (piecesOf more xs).length = (xs.length + more) / (more + 1) := by
  induction xs using piecesOf.induct more with
  | case1 =>
      rw [piecesOf, List.length_nil, List.length_nil, Nat.zero_add,
        Nat.div_eq_of_lt (Nat.lt_succ_self more)]
  | case2 a rest ih =>
      have hstep : (rest.length - more + more) / (more + 1) = rest.length / (more + 1) := by
        rcases Nat.lt_or_ge rest.length more with hlt | hge
        · rw [Nat.sub_eq_zero_of_le (Nat.le_of_lt hlt), Nat.zero_add,
            Nat.div_eq_of_lt (Nat.lt_succ_self more), Nat.div_eq_of_lt (by omega)]
        · rw [Nat.sub_add_cancel hge]
      have hmore : rest.length + 1 + more = rest.length + (more + 1) := by omega
      rw [piecesOf, List.length_cons, ih, List.length_drop, hstep, List.length_cons, hmore,
        Nat.add_div_right _ (Nat.succ_pos more)]

end Pieces

/-! ### How many parts there are -/

section Count

variable {length parts size : Nat}

theorem pieceSize_pos (length parts : Nat) : 0 < pieceSize length parts := Nat.le_max_right _ _

/-- The size of a part when there is an element for every part. -/
theorem pieceSize_of_le (hparts : 0 < parts) (h : parts ≤ length) :
    pieceSize length parts = length / parts := by
  have hone : 1 ≤ length / parts := (Nat.one_le_div_iff hparts).mpr h
  rw [pieceSize, Nat.max_eq_left hparts, Nat.max_eq_left hone]

/-- The size of a part when there are fewer elements than parts. -/
theorem pieceSize_of_lt (h : length < parts) : pieceSize length parts = 1 := by
  have hparts : 1 ≤ parts := by omega
  rw [pieceSize, Nat.max_eq_left hparts, Nat.div_eq_of_lt h]
  rfl

/-- As many pieces as are asked for can be filled. -/
theorem le_count (hsize : 0 < size) (h : size * parts ≤ length) :
    parts ≤ (length + (size - 1)) / size := by
  rw [Nat.le_div_iff_mul_le hsize, Nat.mul_comm]
  omega

/-- The elements that are left over do not fill as many pieces again. -/
theorem count_lt (hsize : 0 < size) (hparts : 0 < parts) (h : length < size * parts + parts) :
    (length + (size - 1)) / size < 2 * parts := by
  rw [Nat.div_lt_iff_lt_mul hsize]
  obtain ⟨s, rfl⟩ : ∃ s, size = s + 1 := ⟨size - 1, by omega⟩
  obtain ⟨p, rfl⟩ : ∃ p, parts = p + 1 := ⟨parts - 1, by omega⟩
  have hproduct : (s + 1) * (p + 1) = s * p + s + p + 1 := by ring
  have hdouble : 2 * (p + 1) * (s + 1) = 2 * ((s + 1) * (p + 1)) := by ring
  omega

end Count

/-! ### Cutting evenly -/

/-- What a list is cut into when a number of parts is asked for; none counts as one. -/
structure CutEvenly {α : Type} (parts : Nat) (xs : List α) (pieces : List (List α)) : Prop where
  /-- Nothing is lost and nothing changes its place. -/
  flatten : pieces.flatten = xs
  nonempty : ∀ piece ∈ pieces, piece ≠ []
  /-- All pieces but the last have one size. -/
  full : ∀ piece ∈ pieces.dropLast, piece.length = max 1 (xs.length / max parts 1)
  /-- The last piece may be shorter. -/
  within : ∀ piece ∈ pieces, piece.length ≤ max 1 (xs.length / max parts 1)
  least : min xs.length (max parts 1) ≤ pieces.length
  most : pieces.length ≤ 2 * max parts 1 - 1
  none : pieces.length = 0 ↔ xs.length = 0

section Cut

variable {α : Type} (parts : Nat) (xs : List α)

theorem pieceSize_eq_max (length parts : Nat) :
    pieceSize length parts - 1 + 1 = max 1 (length / max parts 1) := by
  rw [Nat.sub_add_cancel (pieceSize_pos length parts), pieceSize, Nat.max_comm]

theorem pieceSize_max (length parts : Nat) :
    pieceSize length parts = pieceSize length (max parts 1) := by
  rw [pieceSize, pieceSize, Nat.max_eq_left (Nat.le_max_right parts 1)]

theorem length_cut :
    (cut parts xs).length = (xs.length + (pieceSize xs.length parts - 1)) /
      pieceSize xs.length parts := by
  have hsize : pieceSize xs.length parts - 1 + 1 = pieceSize xs.length parts :=
    Nat.sub_add_cancel (pieceSize_pos _ _)
  rw [cut, length_piecesOf, hsize]

/-- A list is cut into about as many parts as are asked for. -/
theorem count_cut (hparts : 0 < parts) :
    min xs.length parts ≤ (cut parts xs).length ∧ (cut parts xs).length < 2 * parts := by
  rw [length_cut]
  rcases Nat.lt_or_ge xs.length parts with hlt | hge
  · rw [pieceSize_of_lt hlt, Nat.div_one]
    omega
  · have hpos : 0 < xs.length / parts := (Nat.one_le_div_iff hparts).mpr hge
    have hdivision := Nat.div_add_mod xs.length parts
    have hrest := Nat.mod_lt xs.length hparts
    have hcomm := Nat.mul_comm parts (xs.length / parts)
    rw [pieceSize_of_le hparts hge, Nat.min_eq_right hge]
    exact ⟨le_count hpos (by omega), count_lt hpos hparts (by omega)⟩

/-- One fewer than twice as many may be needed. -/
example : (cut 3 [0, 1, 2, 3, 4]).length = 2 * 3 - 1 := by cbv

theorem cut_max : cut parts xs = cut (max parts 1) xs := by
  rw [cut, pieceSize_max, cut]

theorem cutEvenly_cut : CutEvenly parts xs (cut parts xs) where
  flatten := flatten_cut parts xs
  nonempty _ h := ne_nil_of_mem_piecesOf h
  full _ h := (length_of_mem_dropLast_piecesOf h).trans (pieceSize_eq_max _ _)
  within _ h := (length_le_of_mem_piecesOf h).trans (pieceSize_eq_max _ _).le
  least := by
    rw [cut_max]
    exact (count_cut (max parts 1) xs (Nat.le_max_right parts 1)).1
  most := by
    rw [cut_max]
    have hlt := (count_cut (max parts 1) xs (Nat.le_max_right parts 1)).2
    omega
  none := by rw [List.length_eq_zero_iff, List.length_eq_zero_iff, cut, piecesOf_eq_nil]

end Cut

/-! ### Frames -/

/-- Parts of a list without a repeated key have no key in common. -/
theorem disjoint_keys_of_flatten {κ ν : Type} {pieces : List (List (κ × ν))}
    (h : (pieces.flatten.map (·.1)).Nodup) :
    pieces.Pairwise fun a b => List.Disjoint (a.map (·.1)) (b.map (·.1)) := by
  rw [List.map_flatten, List.nodup_flatten] at h
  exact List.pairwise_map.mp h.2

/-- The frames that a value is split into: a list and a map are begun, given part by part and ended,
and nothing else is split. -/
inductive SplitsInto (parts : Nat) : Json → Option (List Frame) → Prop
  | list {items : List Json} {pieces : List (List Json)} (heven : CutEvenly parts items pieces) :
      SplitsInto parts (.array items)
        (some (.begin .list :: pieces.map (fun js => .part (.array js)) ++ [.finish]))
  /-- No name stands in two parts of an object, and the names come in their order. -/
  | map {members : List (String × Json)} {pieces : List (List (String × Json))}
      (heven : CutEvenly parts members pieces)
      (hsorted : members.Pairwise fun a b => compare a.1 b.1 = .lt)
      (hdisjoint : pieces.Pairwise fun a b => List.Disjoint (a.map (·.1)) (b.map (·.1))) :
      SplitsInto parts (.object members)
        (some (.begin .map :: pieces.map (fun ms => .part (.object ms)) ++ [.finish]))
  | null : SplitsInto parts .null none
  | bool (b : Bool) : SplitsInto parts (.bool b) none
  | number (n : Json.Number) : SplitsInto parts (.number n) none
  | string (s : String) : SplitsInto parts (.string s) none

/-- **A result is split into even parts, of which there are at most one fewer than twice as many as
are asked for, and nothing is divided by zero in finding their size, which is never zero.** -/
theorem splitsInto_split (v : Json) (parts : Nat) :
    SplitsInto parts v.sorted (split? v.sorted parts) ∧
      ∀ length, max parts 1 ≠ 0 ∧ pieceSize length parts ≠ 0 := by
  refine ⟨?_, fun length => ⟨by omega, (pieceSize_pos length parts).ne'⟩⟩
  cases v with
  | array items =>
      rw [Json.sorted]
      exact .list (cutEvenly_cut parts _)
  | object members =>
      have hnames := distinctNames_of_ordered (Json.ordered_sorted (.object members))
      rw [Json.sorted] at hnames ⊢
      have heven := cutEvenly_cut parts (Json.sortMembers (Json.sortedMembers members))
      refine .map heven (SortedMap.ofList _).increasing (disjoint_keys_of_flatten ?_)
      rw [heven.flatten]
      exact hnames _ rfl
  | null => rw [Json.sorted]; exact .null
  | bool b => rw [Json.sorted]; exact .bool b
  | number n => rw [Json.sorted]; exact .number n
  | string s => rw [Json.sorted]; exact .string s

end BytecodeIR.Service

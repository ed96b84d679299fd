/-
The components of a path, and of the path of an entry.

The path of an entry of a directory is spelled in one of three ways: with a slash put
in, without one where the path of the directory ends in a slash, and as the bare name
where that path is empty.  None of this shows in the components.  They are those of the
directory, and the name after them, as long as the name is one that an entry can have:
no slash is in it, and it is neither of the two that lead elsewhere.  Every other piece
of a path is such a name.

Components say less than the text of a path, but only about slashes and dots: any other
character of the text is in one of the names.
-/
import BytecodeIR.Files.Path
import Mathlib.Data.List.Basic
import Mathlib.Data.List.TakeWhile

namespace BytecodeIR

/-! ### Pieces between separators

What holds of splitting a text at a character is shown for lists of any kind, and is
used both for slashes in a path and for the separators of a class path.
-/

section Separator

variable {α : Type} [BEq α] [LawfulBEq α] {a b : α} {l piece : List α}

theorem notMem_of_mem_splitOn (h : piece ∈ l.splitOn a) : a ∉ piece := by
  induction l generalizing piece with
  | nil =>
      obtain rfl := List.mem_singleton.mp h
      exact List.not_mem_nil
  | cons c rest ih =>
      rw [List.splitOn_cons_eq_if_modifyHead] at h
      split at h
      · rcases List.mem_cons.mp h with rfl | h
        · exact List.not_mem_nil
        · exact ih h
      · rename_i hc
        obtain ⟨first, pieces, hsplit⟩ := List.exists_cons_of_ne_nil (List.splitOn_ne_nil a rest)
        rw [hsplit] at h ih
        rcases List.mem_cons.mp h with rfl | h
        · exact List.not_mem_cons_of_ne_of_not_mem (fun hac => hc (beq_iff_eq.mpr hac.symm))
            (ih List.mem_cons_self)
        · exact ih (List.mem_cons_of_mem _ h)

/-- Only separators are lost when a list is cut at them. -/
theorem mem_iff_mem_splitOn (hb : b ≠ a) : b ∈ l ↔ ∃ piece ∈ l.splitOn a, b ∈ piece := by
  induction l with
  | nil => simp
  | cons c rest ih =>
      rw [List.mem_cons, ih, List.splitOn_cons_eq_if_modifyHead]
      split
      · rename_i hc
        simp [beq_iff_eq.mp hc, hb]
      · obtain ⟨first, pieces, hsplit⟩ := List.exists_cons_of_ne_nil (List.splitOn_ne_nil a rest)
        rw [hsplit, List.modifyHead_cons, List.exists_mem_cons_iff, List.exists_mem_cons_iff,
          List.mem_cons, or_assoc]

end Separator

namespace Path

/-- A name that an entry of a directory can have. -/
structure IsName (name : String) : Prop where
  filled : name ≠ ""
  unbroken : '/' ∉ name.toList
  notCurrent : name ≠ "."
  notParent : name ≠ ".."

/-! ### Pieces between slashes

No piece has a slash in it, and those pieces that are no names are told apart by what
they are: empty, one dot or two.
-/

theorem splitSlashes_eq_splitOn (cs : List Char) : splitSlashes cs = cs.splitOn '/' := by
  induction cs with
  | nil => rfl
  | cons c rest ih =>
      rw [splitSlashes, ih, List.splitOn_cons_eq_if_modifyHead]
      simp only [beq_iff_eq]
      split
      · rfl
      · obtain ⟨piece, pieces, h⟩ := List.exists_cons_of_ne_nil (List.splitOn_ne_nil '/' rest)
        rw [h, List.modifyHead_cons]

/-- A slash ends a piece and starts another one. -/
theorem splitSlashes_append (cs rest : List Char) :
    splitSlashes (cs ++ '/' :: rest) = splitSlashes cs ++ splitSlashes rest := by
  simp only [splitSlashes_eq_splitOn, List.splitOn_append_cons_self]

theorem splitSlashes_of_notMem {cs : List Char} (h : '/' ∉ cs) : splitSlashes cs = [cs] := by
  rw [splitSlashes_eq_splitOn, List.splitOn_eq_singleton h]

/-- A piece of a path is a name, except for the two that lead elsewhere. -/
theorem isName_of_mem_pieces {p : Path} {piece : String} (h : piece ∈ p.pieces)
    (hcurrent : piece ≠ ".") (hparent : piece ≠ "..") : IsName piece := by
  obtain ⟨cs, hcs, rfl⟩ := List.mem_map.mp h
  obtain ⟨hmem, hfilled⟩ := List.mem_filter.mp hcs
  refine ⟨by simpa using hfilled, ?_, hcurrent, hparent⟩
  rw [splitSlashes_eq_splitOn] at hmem
  rw [String.toList_ofList]
  exact notMem_of_mem_splitOn hmem

/-! ### Characters in a path

Slashes and dots come and go when a path is taken apart and put in another spelling.
Any other character stands in a name, and the names of a path are among its components.
-/

section Character

variable {p q : Path} {c : Char}

theorem component?_eq_name {piece name : String} :
    component? piece = some (.name name) ↔ piece = name ∧ name ≠ "." ∧ name ≠ ".." := by
  unfold component?
  split_ifs with hcurrent hparent
  all_goals grind

theorem name_mem_components {name : String} :
    .name name ∈ p.components ↔ name ∈ p.pieces ∧ name ≠ "." ∧ name ≠ ".." := by
  have hpieces : .name name ∈ p.components ↔ .name name ∈ p.pieces.filterMap component? := by
    unfold components
    rw [List.mem_append]
    split_ifs
    all_goals simp
  rw [hpieces, List.mem_filterMap]
  constructor
  · rintro ⟨piece, hpiece, h⟩
    obtain ⟨rfl, hdots⟩ := component?_eq_name.mp h
    exact ⟨hpiece, hdots⟩
  · rintro ⟨hpiece, hdots⟩
    exact ⟨name, hpiece, component?_eq_name.mpr ⟨rfl, hdots⟩⟩

/-- **What characters a path has besides slashes and dots is a matter of its components.** -/
theorem mem_text_iff (hslash : c ≠ '/') (hdot : c ≠ '.') :
    c ∈ p.text.toList ↔ ∃ name, .name name ∈ p.components ∧ c ∈ name.toList := by
  rw [mem_iff_mem_splitOn hslash, ← splitSlashes_eq_splitOn]
  simp only [name_mem_components]
  constructor
  · rintro ⟨cs, hcs, hc⟩
    have hfilled : cs.isEmpty = false := List.isEmpty_eq_false_iff.mpr (List.ne_nil_of_mem hc)
    have hname : c ∈ (String.ofList cs).toList := by rwa [String.toList_ofList]
    refine ⟨String.ofList cs, ⟨?_, ?_, ?_⟩, hname⟩
    · exact List.mem_map.mpr ⟨cs, List.mem_filter.mpr ⟨hcs, by simp [hfilled]⟩, rfl⟩
    all_goals
      intro hdots
      rw [hdots] at hname
      simp [hdot] at hname
  · rintro ⟨name, ⟨hpiece, -, -⟩, hc⟩
    obtain ⟨cs, hcs, rfl⟩ := List.mem_map.mp hpiece
    rw [String.toList_ofList] at hc
    exact ⟨cs, List.mem_of_mem_filter hcs, hc⟩

theorem mem_text_congr (hslash : c ≠ '/') (hdot : c ≠ '.') (h : p.components = q.components) :
    c ∈ p.text.toList ↔ c ∈ q.text.toList := by
  rw [mem_text_iff hslash hdot, mem_text_iff hslash hdot, h]

end Character

/-! ### Entries of directories

A path that ends in a slash has an empty piece at its end, and the name takes its place;
otherwise the name is one more piece.  An empty path is the case apart: it has one empty
piece, which is no component, and with a name put to it the name is all there is.
-/

section Entry

variable {p : Path} {name : String}

/-- The text of the path of an entry, as a list of characters. -/
theorem toList_entry (p : Path) (name : String) :
    (p.entry name).text.toList = p.text.toList ++ name.toList ∧
        (p.text.toList = [] ∨ ∃ above, p.text.toList = above ++ ['/']) ∨
      (p.entry name).text.toList = p.text.toList ++ '/' :: name.toList ∧ p.text.toList ≠ [] := by
  unfold entry
  by_cases hempty : p.text.isEmpty = true
  · have hnil : p.text.toList = [] := by simpa using hempty
    simp [hempty, hnil]
  · have hne : p.text.toList ≠ [] := by simpa using hempty
    by_cases hslash : p.endsInSlash = true
    · have hlast : p.text.toList.getLast? = some '/' := by simpa [endsInSlash] using hslash
      refine .inl ⟨by simp [hslash], .inr ⟨p.text.toList.dropLast, ?_⟩⟩
      exact (List.dropLast_append_getLast? _ hlast).symm
    · exact .inr ⟨by simp [hempty, hslash], hne⟩

/-- **The pieces of the path of an entry are those of the directory and the name.** -/
theorem pieces_entry (h : IsName name) : (p.entry name).pieces = p.pieces ++ [name] := by
  have hfilled : name.toList.isEmpty = false := by simpa using h.filled
  unfold pieces
  rcases toList_entry p name with ⟨htext, hnil | ⟨above, habove⟩⟩ | ⟨htext, -⟩
  · rw [htext, hnil, List.nil_append, splitSlashes_of_notMem h.unbroken]
    simp [splitSlashes, hfilled]
  · rw [htext, habove, List.append_assoc, List.singleton_append, splitSlashes_append,
      splitSlashes_append, splitSlashes_of_notMem h.unbroken]
    simp [splitSlashes, hfilled]
  · rw [htext, splitSlashes_append, splitSlashes_of_notMem h.unbroken]
    simp [hfilled]

theorem isAbsolute_entry (h : IsName name) : (p.entry name).isAbsolute = p.isAbsolute := by
  have hname := h.unbroken
  unfold isAbsolute
  rcases toList_entry p name with ⟨htext, hnil | ⟨above, habove⟩⟩ | ⟨htext, hne⟩
  · rw [htext, hnil, List.nil_append]
    cases hcs : name.toList with
    | nil => rfl
    | cons c cs =>
        rw [hcs] at hname
        simpa using (List.ne_and_not_mem_of_not_mem_cons hname).1.symm
  · rw [htext, habove]
    cases above with
    | nil => rfl
    | cons c cs => rfl
  · rw [htext, List.head?_append_of_ne_nil _ hne]

/-- **The components of the path of an entry are those of the directory and the name.** -/
theorem components_entry (h : IsName name) :
    (p.entry name).components = p.components ++ [.name name] := by
  have hhead : (p.pieces ++ [name]).head? = some "." ↔ p.pieces.head? = some "." := by
    cases p.pieces with
    | nil => simpa using h.notCurrent
    | cons piece rest => rfl
  have hlast : component? name = some (.name name) :=
    component?_eq_name.mpr ⟨rfl, h.notCurrent, h.notParent⟩
  unfold components
  rw [isAbsolute_entry h, pieces_entry h, List.filterMap_append, List.append_assoc]
  simp only [hhead, List.filterMap_cons, hlast, List.filterMap_nil]

end Entry

/-! ### Extensions

The extension starts behind the last dot, and a name that begins with its only dot has
none.  Both directions are needed: the names that end in an extension, and what is left
of a name that has one.
-/

section Extension

variable {name stem ext : String}

/-- What follows a dot is an extension if it has no dot in it and something stands before. -/
theorem extension?_append (hstem : stem ≠ "") (hext : '.' ∉ ext.toList) :
    extension? (stem ++ "." ++ ext) = some ext := by
  have hreversed : (stem ++ "." ++ ext).toList.reverse =
      ext.toList.reverse ++ '.' :: stem.toList.reverse := by simp
  have hall : ∀ c ∈ ext.toList.reverse, decide (c ≠ '.') = true := fun c hc =>
    decide_eq_true fun hdot => hext (hdot ▸ List.mem_reverse.mp hc)
  obtain ⟨c, cs, hcons⟩ := List.exists_cons_of_ne_nil
    (List.reverse_ne_nil_iff.mpr fun hnil => hstem (String.toList_eq_nil_iff.mp hnil))
  unfold extension?
  dsimp only
  rw [hreversed, List.takeWhile_append_of_pos hall, List.dropWhile_append_of_pos hall, hcons]
  simp

theorem exists_of_extension? (h : extension? name = some ext) :
    ∃ stem, stem ≠ "" ∧ name = stem ++ "." ++ ext ∧ '.' ∉ ext.toList := by
  unfold extension? at h
  dsimp only at h
  -- read backwards, the name is the extension, the dot and what stands before it
  have hparts := @List.takeWhile_append_dropWhile _ (fun c => decide (c ≠ '.')) name.toList.reverse
  have hext : ∀ c ∈ name.toList.reverse.takeWhile (fun c => decide (c ≠ '.')), c ≠ '.' :=
    fun c hc => by simpa using List.mem_takeWhile_imp hc
  have hdot := List.head?_dropWhile_not (fun c => decide (c ≠ '.')) name.toList.reverse
  generalize name.toList.reverse.takeWhile (fun c => decide (c ≠ '.')) = after at h hparts hext
  generalize name.toList.reverse.dropWhile (fun c => decide (c ≠ '.')) = before at h hparts hdot
  match before, h with
  | c :: c' :: stem, h =>
      obtain rfl : c = '.' := by simpa using hdot
      obtain rfl : String.ofList after.reverse = ext := Option.some.inj h
      refine ⟨String.ofList (c' :: stem).reverse, by simp, ?_, fun hmem => ?_⟩
      · apply String.toList_injective
        rw [← List.reverse_inj, ← hparts]
        simp
      · exact hext '.' (by simpa using hmem) rfl

/-- **A name has an extension if something stands before its last dot, and the extension is what
follows that dot.** -/
theorem extension?_eq_some : extension? name = some ext ↔
    ∃ stem, stem ≠ "" ∧ name = stem ++ "." ++ ext ∧ '.' ∉ ext.toList := by
  refine ⟨exists_of_extension?, ?_⟩
  rintro ⟨stem, hstem, rfl, hext⟩
  exact extension?_append hstem hext

end Extension

end Path

end BytecodeIR

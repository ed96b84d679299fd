/-
The rows of a listing.

A listing is put together from the listings of parts, each cut into its lines and moved in by a tab:
a method does so with its blocks and a class with its methods.  What comes out is laid out here as a
list of rows.  It has one row for each statement, whatever string constants there are, and one or
two for each block and method, so the rows of a class are known from its shape alone.

The layout is shown level by level.  At each level the listing is the text of the rows, and because
no row is broken, moving the lines of that text in moves the rows in.  Only then are comments taken
out.  A line is taken for a comment by how it begins, so this has to be seen of each row that is
none: a statement begins with its label, and a declaration is asked to have no two slashes in a row.
-/
import BytecodeIR.Proofs.Code.Words

namespace BytecodeIR.Code

open Text (Unbroken ended)

/-! ### Rows

A row is a line with the tabs in front of it counted and not written, and it is known of
each row whether it is a comment.  So what has to be shown of comments is that a line is
taken for what its row is.
-/

/-- A text some tabs further in. -/
def tabbed : Nat → String → String
  | 0, text => text
  | n + 1, text => "\t" ++ tabbed n text

/-- A row of a listing, with the number of tabs in front of it. -/
inductive Row where
  /-- A comment, without the slashes. -/
  | note (tabs : Nat) (text : String)
  | code (tabs : Nat) (text : String)

namespace Row

/-- Whether a row is a comment. -/
def isNote : Row → Bool
  | note _ _ => true
  | code _ _ => false

@[simp] theorem isNote_note (tabs : Nat) (text : String) : (note tabs text).isNote = true := rfl

@[simp] theorem isNote_code (tabs : Nat) (text : String) : (code tabs text).isNote = false := rfl

/-- The line that a row takes. -/
def line : Row → String
  | note tabs text => tabbed tabs ("//" ++ text)
  | code tabs text => tabbed tabs text

/-- A row one tab further in. -/
def deeper : Row → Row
  | note tabs text => note (tabs + 1) text
  | code tabs text => code (tabs + 1) text

theorem line_deeper (r : Row) : r.deeper.line = "\t" ++ r.line := by
  cases r <;> rfl

end Row

/-! ### The rows of blocks, methods and classes

The rows follow the shape of a class, part by part, with the tabs of a part given from
outside.  How the lines of a part are moved in when a listing is printed does not come
into them.
-/

/-- The declaration of a method, with the brace that opens its body. -/
def Method.signature (m : Method) : String :=
  declarationStart m.attributes ++ m.returnType ++ " " ++ m.name ++ "(" ++
    commaSeparated m.params ++ ")" ++ clause "throws" m.exceptions ++ "\x7b"

/-- The declaration of a field. -/
def Field.signature (f : Field) : String := declarationStart f.attributes ++ f.ty ++ " " ++ f.name

/-- The declaration of a class, with the brace that opens its body. -/
def Class.signature (c : Class) : String :=
  declarationStart c.attributes ++ "class " ++ c.name ++
    (if c.superClass.isEmpty then "" else " extends " ++ c.superClass) ++
    clause "implements" c.interfaces ++ "\x7b"

/-- The declarations in the listing of a class. -/
def Class.signatures (c : Class) : List String :=
  c.signature :: (c.fields.map Field.signature ++ c.methods.map Method.signature)

/-- The rows of a block: a comment, and one row for each statement. -/
def Block.rows (tabs : Nat) (b : Block) : List Row :=
  .note tabs ("<Block " ++ toString b.index.toNat ++ " [" ++ b.label.text ++ "], " ++
      toString b.size ++ " statements>") ::
    b.statements.map fun s => .code tabs (s.label.text ++ ": " ++ s.text)

/-- The rows of a method: a comment, the declaration, its blocks and a closing brace. -/
def Method.rows (tabs : Nat) (m : Method) : List Row :=
  .note tabs ("<Method " ++ m.fullName ++ ", " ++ toString m.blocks.length ++ " blocks>") ::
    .code tabs m.signature ::
    (m.blocks.flatMap (Block.rows (tabs + 1)) ++ [.code tabs "\x7d"])

/-- The rows of a class: a comment, the declaration, its fields, an empty row, its methods and a
closing brace. -/
def Class.rows (c : Class) : List Row :=
  .note 0 ("<Class " ++ c.name ++ ", " ++ toString c.methods.length ++ " methods>") ::
    .code 0 c.signature ::
    (c.fields.map (fun f => .code 1 f.signature) ++ .code 0 "" ::
      (c.methods.flatMap (Method.rows 1) ++ [.code 0 "\x7d"]))

/-- The rows of a class that are no comments. -/
def Class.codeRows (c : Class) : List Row := c.rows.filter fun r => !r.isNote

/-- The blocks of all methods of a class. -/
def Class.blocks (c : Class) : List Block := c.methods.flatMap Method.blocks

/-- The statements of all methods of a class. -/
def Class.statements (c : Class) : List Statement := c.methods.flatMap Method.statements

section Forall

variable {p : Row → Prop} {tabs : Nat}

theorem Block.forall_mem_rows {b : Block} : (∀ r ∈ b.rows tabs, p r) ↔
    p (.note tabs ("<Block " ++ toString b.index.toNat ++ " [" ++ b.label.text ++ "], " ++
      toString b.size ++ " statements>")) ∧
    ∀ s ∈ b.statements, p (.code tabs (s.label.text ++ ": " ++ s.text)) := by
  rw [rows, List.forall_mem_cons, List.forall_mem_map]

theorem Method.forall_mem_rows {m : Method} : (∀ r ∈ m.rows tabs, p r) ↔
    p (.note tabs ("<Method " ++ m.fullName ++ ", " ++ toString m.blocks.length ++ " blocks>")) ∧
    p (.code tabs m.signature) ∧ (∀ b ∈ m.blocks, ∀ r ∈ b.rows (tabs + 1), p r) ∧
    p (.code tabs "\x7d") := by
  rw [rows, List.forall_mem_cons, List.forall_mem_cons, List.forall_mem_append,
    List.forall_mem_singleton, List.forall_mem_flatMap]

theorem Class.forall_mem_rows {c : Class} : (∀ r ∈ c.rows, p r) ↔
    p (.note 0 ("<Class " ++ c.name ++ ", " ++ toString c.methods.length ++ " methods>")) ∧
    p (.code 0 c.signature) ∧ (∀ f ∈ c.fields, p (.code 1 f.signature)) ∧ p (.code 0 "") ∧
    (∀ m ∈ c.methods, ∀ r ∈ m.rows 1, p r) ∧ p (.code 0 "\x7d") := by
  rw [rows, List.forall_mem_cons, List.forall_mem_cons, List.forall_mem_append,
    List.forall_mem_map, List.forall_mem_cons, List.forall_mem_append,
    List.forall_mem_singleton, List.forall_mem_flatMap]

end Forall

/-! ### No row is broken

The texts in a row are words, fixed pieces and texts of statements.  All of them are
unbroken if the words of the class are, and the words of a part are among those of the
whole.
-/

/-- The words of a block. -/
def Block.words (b : Block) : List String := b.statements.flatMap Statement.words

/-- The words of a method. -/
def Method.words (m : Method) : List String :=
  m.className :: m.name :: m.returnType ::
    (m.params ++ m.exceptions ++ m.blocks.flatMap Block.words)

/-- The words of a field. -/
def Field.words (f : Field) : List String := [f.ty, f.name]

/-- The words of a class. -/
def Class.words (c : Class) : List String :=
  c.name :: c.superClass ::
    (c.interfaces ++ c.fields.flatMap Field.words ++ c.methods.flatMap Method.words)

theorem Block.words_subset {m : Method} {b : Block} (hb : b ∈ m.blocks) : b.words ⊆ m.words := by
  intro w hw
  have hmem : w ∈ m.blocks.flatMap Block.words := List.mem_flatMap_of_mem hb hw
  simp [Method.words, hmem]

theorem Field.words_subset {c : Class} {f : Field} (hf : f ∈ c.fields) : f.words ⊆ c.words := by
  intro w hw
  have hmem : w ∈ c.fields.flatMap Field.words := List.mem_flatMap_of_mem hf hw
  simp only [Class.words, List.mem_cons, List.mem_append, hmem, true_or, or_true]

theorem Method.words_subset {c : Class} {m : Method} (hm : m ∈ c.methods) :
    m.words ⊆ c.words := by
  intro w hw
  have hmem : w ∈ c.methods.flatMap Method.words := List.mem_flatMap_of_mem hm hw
  simp only [Class.words, List.mem_cons, List.mem_append, hmem, or_true]

theorem unbroken_tabbed {text : String} (h : Unbroken text) (tabs : Nat) :
    Unbroken (tabbed tabs text) := by
  induction tabs with
  | zero => exact h
  | succ n ih => exact (Unbroken.lit "\t" rfl).append ih

theorem Row.unbroken_note {text : String} (h : Unbroken text) (tabs : Nat) :
    Unbroken (note tabs text).line := unbroken_tabbed ((Unbroken.lit "//" rfl).append h) tabs

theorem Row.unbroken_code {text : String} (h : Unbroken text) (tabs : Nat) :
    Unbroken (code tabs text).line := unbroken_tabbed h tabs

theorem Attribute.unbroken_render (attributes : List Attribute) : Unbroken (render attributes) := by
  have hlower : ∀ a : Attribute, Unbroken a.name.toLower := by
    intro a
    have hchars : a.name.toLower.toList = a.name.toList.map Char.toLower := String.toList_map
    refine .of_notMem ?_ ?_
    all_goals
      rw [hchars]
      cases a <;> decide
  refine .intercalate (.lit " " rfl) fun t ht => ?_
  obtain ⟨a, -, rfl⟩ := List.mem_map.mp ht
  exact hlower a

theorem unbroken_declarationStart (attributes : List Attribute) :
    Unbroken (declarationStart attributes) := by
  unfold declarationStart
  split
  · exact .empty
  · exact (Attribute.unbroken_render attributes).then_lit " " rfl

theorem unbroken_clause {word : String} {items : List String} (hword : Unbroken word)
    (h : ∀ i ∈ items, Unbroken i) : Unbroken (clause word items) := by
  unfold clause
  split
  · exact .empty
  · exact (Unbroken.lit " " rfl).append hword |>.then_lit " " rfl
      |>.append (unbroken_commaSeparated h)

theorem Field.unbroken_signature {f : Field} (h : ∀ w ∈ f.words, Unbroken w) :
    Unbroken f.signature := by
  have htype := h f.ty (by simp [words])
  have hname := h f.name (by simp [words])
  exact (unbroken_declarationStart _).append htype |>.then_lit " " rfl |>.append hname

theorem Method.unbroken_signature {m : Method} (h : ∀ w ∈ m.words, Unbroken w) :
    Unbroken m.signature := by
  have htype := h m.returnType (by simp [words])
  have hname := h m.name (by simp [words])
  have hparams : Unbroken (commaSeparated m.params) :=
    unbroken_commaSeparated fun p hp => h p (by simp [words, hp])
  have hthrows : Unbroken (clause "throws" m.exceptions) :=
    unbroken_clause (.lit "throws" rfl) fun e he => h e (by simp [words, he])
  exact (unbroken_declarationStart _).append htype |>.then_lit " " rfl |>.append hname
    |>.then_lit "(" rfl |>.append hparams |>.then_lit ")" rfl |>.append hthrows
    |>.then_lit "\x7b" rfl

theorem Class.unbroken_signature {c : Class} (h : ∀ w ∈ c.words, Unbroken w) :
    Unbroken c.signature := by
  have hname := h c.name (by simp [words])
  have hsuper : Unbroken (if c.superClass.isEmpty then "" else " extends " ++ c.superClass) := by
    split
    · exact .empty
    · exact (Unbroken.lit " extends " rfl).append (h c.superClass (by simp [words]))
  have himplements : Unbroken (clause "implements" c.interfaces) :=
    unbroken_clause (.lit "implements" rfl) fun i hi => h i (by simp [words, hi])
  exact (unbroken_declarationStart _).then_lit "class " rfl |>.append hname |>.append hsuper
    |>.append himplements |>.then_lit "\x7b" rfl

theorem Block.unbroken_rows {b : Block} (h : ∀ w ∈ b.words, Unbroken w) (tabs : Nat) :
    ∀ r ∈ b.rows tabs, Unbroken r.line := by
  have hnote := (Unbroken.lit "<Block " rfl).append (unbroken_nat b.index.toNat)
    |>.then_lit " [" rfl |>.append b.label.unbroken_text |>.then_lit "], " rfl
    |>.append (unbroken_nat b.size) |>.then_lit " statements>" rfl
  refine forall_mem_rows.mpr ⟨Row.unbroken_note hnote tabs, fun s hs => ?_⟩
  have htext := Statement.unbroken_text fun w hw => h w (List.mem_flatMap_of_mem hs hw)
  exact Row.unbroken_code (s.label.unbroken_text.then_lit ": " rfl |>.append htext) tabs

theorem Method.unbroken_rows {m : Method} (h : ∀ w ∈ m.words, Unbroken w) (tabs : Nat) :
    ∀ r ∈ m.rows tabs, Unbroken r.line := by
  have hclass := h m.className (by simp [words])
  have hname := h m.name (by simp [words])
  have hnote := (Unbroken.lit "<Method " rfl).append (hclass.then_lit "." rfl |>.append hname)
    |>.then_lit ", " rfl |>.append (unbroken_nat m.blocks.length) |>.then_lit " blocks>" rfl
  exact forall_mem_rows.mpr ⟨Row.unbroken_note hnote tabs,
    Row.unbroken_code (unbroken_signature h) tabs,
    fun b hb => Block.unbroken_rows (fun w hw => h w (Block.words_subset hb hw)) (tabs + 1),
    Row.unbroken_code (.lit "\x7d" rfl) tabs⟩

theorem Class.unbroken_rows {c : Class} (h : ∀ w ∈ c.words, Unbroken w) :
    ∀ r ∈ c.rows, Unbroken r.line := by
  have hname := h c.name (by simp [words])
  have hnote := (Unbroken.lit "<Class " rfl).append hname |>.then_lit ", " rfl
    |>.append (unbroken_nat c.methods.length) |>.then_lit " methods>" rfl
  refine forall_mem_rows.mpr ⟨Row.unbroken_note hnote 0, Row.unbroken_code (unbroken_signature h) 0,
    fun f hf => ?_, Row.unbroken_code .empty 0, fun m hm => ?_,
    Row.unbroken_code (.lit "\x7d" rfl) 0⟩
  · exact Row.unbroken_code
      (Field.unbroken_signature fun w hw => h w (Field.words_subset hf hw)) 1
  · exact Method.unbroken_rows (fun w hw => h w (Method.words_subset hm hw)) 1

/-! ### A listing is the text of its rows

Moving lines in takes a text apart and puts it together again.  Taken apart, the text of
unbroken rows is the rows, so moving its lines in by a tab is moving the rows deeper.
-/

/-- Moving in the lines of a text moves in its rows. -/
theorem indented_ended {rows : List Row} (h : ∀ r ∈ rows, Unbroken r.line) :
    indented (ended (rows.map Row.line)) = ended ((rows.map Row.deeper).map Row.line) := by
  rw [indented, Text.lines_ended (List.forall_mem_map.mpr h), ended, List.map_map, List.map_map,
    List.map_map]
  refine congrArg String.join (List.map_congr_left fun r _ => ?_)
  simp only [Function.comp_apply, Row.line_deeper]

theorem Block.deeper_rows (tabs : Nat) (b : Block) :
    (b.rows tabs).map Row.deeper = b.rows (tabs + 1) := by
  simp [rows, Row.deeper]

theorem Method.deeper_rows (tabs : Nat) (m : Method) :
    (m.rows tabs).map Row.deeper = m.rows (tabs + 1) := by
  simp [rows, Row.deeper, List.map_flatMap, Block.deeper_rows]

/-- The listing of a block is the text of its rows. -/
theorem Block.listing_eq_ended (b : Block) : b.listing = ended ((b.rows 0).map Row.line) := by
  rw [rows, List.map_cons, Text.ended_cons, List.map_map, ended, List.map_map]
  unfold listing
  simp only [Row.line, tabbed, Function.comp_def, String.append_assoc]
  rfl

theorem Method.header_eq (m : Method) : m.header = m.signature ++ "\n" := by
  simp only [header, signature, String.append_assoc]
  rfl

theorem Class.header_eq (c : Class) : c.header = c.signature ++ "\n" := by
  simp only [header, signature, String.append_assoc]
  rfl

theorem Field.listing_eq (f : Field) : f.listing = (Row.code 1 f.signature).line ++ "\n" := by
  simp only [listing, signature, Row.line, tabbed, String.append_assoc]

/-- The listing of a method is the text of its rows. -/
theorem Method.listing_eq_ended {m : Method} (h : ∀ w ∈ m.words, Unbroken w) :
    m.listing = ended ((m.rows 0).map Row.line) := by
  have hblocks : m.blocks.map (fun b => indented b.listing) =
      m.blocks.map fun b => ended ((b.rows 1).map Row.line) := by
    refine List.map_congr_left fun b hb => ?_
    have hrows := Block.unbroken_rows (fun w hw => h w (Block.words_subset hb hw)) 0
    rw [Block.listing_eq_ended, indented_ended hrows, Block.deeper_rows]
  rw [rows, List.map_cons, List.map_cons, List.map_append, List.map_flatMap, Text.ended_cons,
    Text.ended_cons, Text.ended_append, Text.ended_flatMap, ← hblocks]
  unfold listing
  simp only [header_eq, Row.line, tabbed, String.append_assoc]
  rfl

/-- **The listing of a class is the text of its rows.** -/
theorem Class.listing_eq_ended {c : Class} (h : ∀ w ∈ c.words, Unbroken w) :
    c.listing = ended (c.rows.map Row.line) := by
  have hmethods : c.methods.map (fun m => indented m.listing) =
      c.methods.map fun m => ended ((m.rows 1).map Row.line) := by
    refine List.map_congr_left fun m hm => ?_
    have hwords := fun w hw => h w (Method.words_subset hm hw)
    rw [Method.listing_eq_ended hwords, indented_ended (Method.unbroken_rows hwords 0),
      Method.deeper_rows]
  have hfields : String.join (c.fields.map Field.listing) =
      ended ((c.fields.map fun f => Row.code 1 f.signature).map Row.line) := by
    rw [ended, List.map_map, List.map_map]
    exact congrArg String.join (List.map_congr_left fun f _ => f.listing_eq)
  rw [rows, List.map_cons, List.map_cons, List.map_append, List.map_cons, List.map_append,
    List.map_flatMap, Text.ended_cons, Text.ended_cons, Text.ended_append, Text.ended_cons,
    Text.ended_append, Text.ended_flatMap, ← hmethods, ← hfields]
  unfold listing
  simp only [header_eq, Row.line, tabbed, String.append_assoc]
  rfl

/-! ### Comments

Two slashes at the start of a line, blanks aside, make it a comment, and every comment
is written with them.  Of the other rows, those of statements begin with a label and so
with a digit; of declarations it is assumed that they have no two slashes in a row
anywhere; the rest are fixed.
-/

theorem isComment_iff {text : String} :
    isComment text = true ↔ "//".toList <+: text.toList.dropWhile Text.isBlank := by
  simp only [isComment, Text.trimStart, String.toList_ofList, List.isPrefixOf_iff_prefix]

/-- Tabs in front do not matter to whether a line is a comment. -/
theorem isComment_tabbed (tabs : Nat) (text : String) :
    isComment (tabbed tabs text) = true ↔ isComment text = true := by
  induction tabs with
  | zero => rfl
  | succ n ih =>
      have htab : ("\t" ++ tabbed n text).toList.dropWhile Text.isBlank =
          (tabbed n text).toList.dropWhile Text.isBlank := by
        rw [String.toList_append]
        rfl
      rw [tabbed, isComment_iff, htab, ← isComment_iff, ih]

theorem isComment_slashes (text : String) : isComment ("//" ++ text) = true := by
  rw [isComment_iff, String.toList_append]
  exact List.prefix_append ['/', '/'] text.toList

/-- A line without two slashes in a row is no comment. -/
theorem not_isComment_of_noSlashes {text : String} (h : ¬ "//".toList <:+: text.toList) :
    ¬ isComment text = true := by
  intro hcomment
  have hstart := isComment_iff.mp hcomment
  exact h (hstart.isInfix.trans (List.dropWhile_suffix _).isInfix)

/-- A line that begins with a number is no comment. -/
theorem not_isComment_nat (n : Nat) (text : String) :
    ¬ isComment (toString n ++ text) = true := by
  obtain ⟨d, digits, hdigits⟩ := List.exists_cons_of_ne_nil (Nat.toDigits_ne_nil (n := n) (b := 10))
  have hd : d.isDigit = true :=
    Layout.isDigit_of_mem_toDigits (hdigits ▸ List.mem_cons_self)
  have hchars : (toString n ++ text).toList = d :: (digits ++ text.toList) := by
    simp [hdigits]
  have hblank : ¬ Text.isBlank d = true := by
    have hrange : 48 ≤ d.toNat ∧ d.toNat ≤ 57 := Char.isDigit_iff_toNat.mp hd
    simp only [Text.isBlank, Bool.or_eq_true, Bool.and_eq_true, decide_eq_true_eq, beq_iff_eq]
    omega
  rw [isComment_iff, hchars, List.dropWhile_cons_of_neg hblank]
  intro hstart
  have hslash : '/' = d := (List.cons_prefix_cons.mp hstart).1
  subst hslash
  exact absurd hd (by decide)

/-- A row is told from a comment by how its line begins. -/
def Row.IsTold (r : Row) : Prop := isComment r.line = r.isNote

theorem Row.isTold_note (tabs : Nat) (text : String) : (note tabs text).IsTold :=
  (isComment_tabbed tabs _).mpr (isComment_slashes text)

theorem Row.isTold_code {text : String} (h : ¬ isComment text = true) (tabs : Nat) :
    (code tabs text).IsTold := by
  rw [IsTold, line, isNote, ← Bool.not_eq_true, isComment_tabbed]
  exact h

theorem Row.isTold_of_noSlashes {text : String} (h : ¬ "//".toList <:+: text.toList) (tabs : Nat) :
    (code tabs text).IsTold := isTold_code (not_isComment_of_noSlashes h) tabs

theorem Block.isTold_rows (tabs : Nat) (b : Block) : ∀ r ∈ b.rows tabs, r.IsTold := by
  refine forall_mem_rows.mpr ⟨Row.isTold_note tabs _, fun s _ => Row.isTold_code ?_ tabs⟩
  rw [String.append_assoc]
  exact not_isComment_nat s.label.toNat _

theorem Method.isTold_rows {m : Method} (h : ¬ "//".toList <:+: m.signature.toList) (tabs : Nat) :
    ∀ r ∈ m.rows tabs, r.IsTold :=
  forall_mem_rows.mpr ⟨Row.isTold_note tabs _, Row.isTold_of_noSlashes h tabs,
    fun b _ => b.isTold_rows (tabs + 1), Row.isTold_of_noSlashes (by decide) tabs⟩

theorem Class.isTold_rows {c : Class} (h : ∀ s ∈ c.signatures, ¬ "//".toList <:+: s.toList) :
    ∀ r ∈ c.rows, r.IsTold := by
  rw [signatures, List.forall_mem_cons, List.forall_mem_append, List.forall_mem_map,
    List.forall_mem_map] at h
  obtain ⟨hclass, hfields, hmethods⟩ := h
  exact forall_mem_rows.mpr ⟨Row.isTold_note 0 _, Row.isTold_of_noSlashes hclass 0,
    fun f hf => Row.isTold_of_noSlashes (hfields f hf) 1, Row.isTold_of_noSlashes (by decide) 0,
    fun m hm => Method.isTold_rows (hmethods m hm) 1, Row.isTold_of_noSlashes (by decide) 0⟩

/-- Taking the comments out of lines takes the comments out of the rows. -/
theorem filter_line {rows : List Row} (h : ∀ r ∈ rows, r.IsTold) :
    (rows.map Row.line).filter (fun line => !isComment line) =
      (rows.filter fun r => !r.isNote).map Row.line := by
  rw [List.filter_map]
  refine congrArg (List.map Row.line) (List.filter_congr fun r hr => ?_)
  rw [Function.comp_apply, h r hr]

/-! ### How many rows there are -/

/-- Rows that come part by part are counted part by part: `k` of them for each part and one for
each item in it. -/
theorem countP_flatMap_rows {α β : Type} {p : Row → Bool} {f : α → List Row} {items : α → List β}
    {k : Nat} (h : ∀ a, (f a).countP p = k + (items a).length) (parts : List α) :
    (parts.flatMap f).countP p = k * parts.length + (parts.flatMap items).length := by
  induction parts with
  | nil => rfl
  | cons a parts ih =>
      rw [List.flatMap_cons, List.countP_append, h, ih, List.flatMap_cons, List.length_append,
        List.length_cons, Nat.mul_succ]
      omega

theorem Block.countP_isNote (tabs : Nat) (b : Block) : (b.rows tabs).countP Row.isNote = 1 := by
  simp [rows, List.countP_cons, Function.comp_def]

theorem Block.countP_code (tabs : Nat) (b : Block) :
    (b.rows tabs).countP (fun r => !r.isNote) = b.statements.length := by
  simp [rows, Function.comp_def]

theorem Method.countP_isNote (tabs : Nat) (m : Method) :
    (m.rows tabs).countP Row.isNote = 1 + m.blocks.length := by
  simp [rows, List.countP_cons, List.countP_flatMap, Function.comp_def, Block.countP_isNote]
  omega

theorem Method.countP_code (tabs : Nat) (m : Method) :
    (m.rows tabs).countP (fun r => !r.isNote) = 2 + m.statements.length := by
  have hblocks : (m.blocks.flatMap (Block.rows (tabs + 1))).countP (fun r => !r.isNote) =
      0 * m.blocks.length + m.statements.length :=
    countP_flatMap_rows (fun b => by rw [b.countP_code, Nat.zero_add]) m.blocks
  simp [rows, hblocks]
  omega

theorem Class.countP_isNote (c : Class) :
    c.rows.countP Row.isNote = 1 + c.methods.length + c.blocks.length := by
  have hmethods : (c.methods.flatMap (Method.rows 1)).countP Row.isNote =
      1 * c.methods.length + c.blocks.length :=
    countP_flatMap_rows (Method.countP_isNote 1) c.methods
  simp [rows, List.countP_cons, Function.comp_def, hmethods]
  omega

theorem Class.length_codeRows (c : Class) :
    c.codeRows.length = 3 + c.fields.length + 2 * c.methods.length + c.statements.length := by
  have hmethods : (c.methods.flatMap (Method.rows 1)).countP (fun r => !r.isNote) =
      2 * c.methods.length + c.statements.length :=
    countP_flatMap_rows (Method.countP_code 1) c.methods
  rw [codeRows, ← List.countP_eq_length_filter]
  simp [rows, Function.comp_def, hmethods]
  omega

/-! ### Listings without comments

What is left is to put the rows that are no comments together again, with a line feed
between two of them and none at the end.  Cutting such a text into lines would lose an
empty one at its end.  There is none, since a class ends in its brace.
-/

/-- **The lines of a listing are its rows, and without comments they are the rows that are none**,
in number what the shape of the class says, as long as no word breaks a line and no declaration has
two slashes in a row. -/
theorem Class.lines_listing {c : Class} (hwords : ∀ w ∈ c.words, Unbroken w)
    (hsignatures : ∀ s ∈ c.signatures, ¬ "//".toList <:+: s.toList) :
    Text.lines c.listing = c.rows.map Row.line ∧
      stripComments c.listing = "\n".intercalate (c.codeRows.map Row.line) ∧
      Text.lines (stripComments c.listing) = c.codeRows.map Row.line ∧
      c.rows.countP Row.isNote = 1 + c.methods.length + c.blocks.length ∧
      c.codeRows.length =
        3 + c.fields.length + 2 * c.methods.length + c.statements.length := by
  have hunbroken : ∀ t ∈ c.rows.map Row.line, Unbroken t :=
    List.forall_mem_map.mpr (unbroken_rows hwords)
  have hlines : Text.lines c.listing = c.rows.map Row.line := by
    rw [listing_eq_ended hwords, Text.lines_ended hunbroken]
  have hstripped : stripComments c.listing = "\n".intercalate (c.codeRows.map Row.line) := by
    rw [stripComments, hlines, filter_line (isTold_rows hsignatures), codeRows]
  have hcode : ∀ t ∈ c.codeRows.map Row.line, Unbroken t := fun t ht =>
    hunbroken t (List.map_subset _ (List.filter_subset_self _) ht)
  -- the closing brace is last, and no comment
  have hlast : (c.codeRows.map Row.line).getLast? ≠ some "" := by
    obtain ⟨front, hfront⟩ : ∃ front, c.rows = front ++ [.code 0 "\x7d"] :=
      ⟨.note 0 _ :: .code 0 c.signature :: (c.fields.map (fun f => .code 1 f.signature) ++
        .code 0 "" :: c.methods.flatMap (Method.rows 1)), by
          simp only [rows, List.cons_append, List.append_assoc]
          rfl⟩
    rw [codeRows, hfront, List.filter_append, List.map_append]
    simp [Row.line, tabbed]
  refine ⟨hlines, hstripped, ?_, c.countP_isNote, c.length_codeRows⟩
  rw [hstripped, Text.lines_intercalate hcode hlast]

/-- A class whose string constants look like line ends, comments and closing braces. -/
def mottoes : Class where
  name := "Mottoes"
  superClass := ""
  interfaces := []
  attributes := [.final]
  fields := [⟨"last", [.static], "java.lang.String"⟩]
  methods := [{
    className := "Mottoes"
    name := "next"
    params := ["int"]
    returnType := "java.lang.String"
    attributes := []
    exceptions := []
    blocks := [⟨⟨0⟩, ⟨0⟩, [
      ⟨⟨0⟩, 0, .assign (.of (.staticField "java.lang.String" ⟨"last", "Mottoes"⟩))
        (.string "//\r\n\"\x7d\r")⟩,
      ⟨⟨1⟩, 0, .giveBack (.string "\n//<Block 1")⟩]⟩]
    successors := ∅
    exceptionalPredecessors := ∅ }]

/-- Each statement takes one line, whatever its string constant looks like. -/
theorem Class.lines_listing_mottoes :
    (∀ w ∈ mottoes.words, Unbroken w) ∧
      (∀ s ∈ mottoes.signatures, ¬ "//".toList <:+: s.toList) ∧
      (Text.lines mottoes.listing).length = 11 ∧
      Text.lines (stripComments mottoes.listing) =
        ["final class Mottoes\x7b", "\tstatic java.lang.String last", "",
          "\tjava.lang.String next(int)\x7b",
          "\t\t0: StaticFieldRef <Mottoes: last> = \"//\\r\\n\\\"\x7d\\r\"",
          "\t\t1: return \"\\n//<Block 1\"", "\t\x7d", "\x7d"] := by
  have hwords : ∀ w ∈ mottoes.words, Unbroken w := by decide
  have hsignatures : ∀ s ∈ mottoes.signatures, ¬ "//".toList <:+: s.toList := by decide +kernel
  obtain ⟨hlines, -, hcode, -, -⟩ := lines_listing hwords hsignatures
  refine ⟨hwords, hsignatures, ?_, hcode.trans (by decide +kernel)⟩
  rw [hlines, List.length_map]
  rfl

end BytecodeIR.Code

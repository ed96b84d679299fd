/-
The classes below a class, level by level.

A class has a distance from another one if a chain of superclasses leads from it to the
other one, and the distance is the length of the shortest such chain.  The classes at one
distance are a level, and each level is made of the one before: of the direct subclasses
of its classes, those that stand in no earlier level.  Nothing is assumed of the dump.
Superclasses may be missing or run in a circle, and a name may be declared several times.

The walk of a hierarchy knows no levels, only a queue.  Whenever it has looked the classes
of a level up, its queue is the next level, and what it has met are the levels so far.
The levels are disjoint and hold nothing but the class and what extends something, so they
run empty before the walk runs out of steps.
-/
import BytecodeIR.Proofs.Hierarchy

namespace BytecodeIR

/-! ### The members of a list that are new

Meeting classes one after the other keeps a class if it was not met before, be it
earlier in the same list or long ago.  `fresh` says what is kept of a whole list at
once, so that the walk can be described without its steps.
-/

/-- The members of a list that were not seen before, each at its first place. -/
def fresh (seen names : List String) : List String :=
  (names.filter fun name => name ∉ seen).eraseDups

section Fresh

variable {seen seen' names rest : List String} {name : String}

@[simp] theorem mem_fresh : name ∈ fresh seen names ↔ name ∈ names ∧ name ∉ seen := by
  simp [fresh]

theorem fresh_cons_of_mem (h : name ∈ seen) : fresh seen (name :: rest) = fresh seen rest := by
  simp [fresh, h]

theorem fresh_cons_of_notMem (h : name ∉ seen) :
    fresh seen (name :: rest) = name :: fresh (name :: seen) rest := by
  simp [fresh, h, List.eraseDups_cons, List.filter_filter, beq_eq_decide]

theorem fresh_congr (h : ∀ name, name ∈ seen ↔ name ∈ seen') :
    fresh seen names = fresh seen' names := by
  simp only [fresh, h]

theorem nodup_fresh : (fresh seen names).Nodup := by
  induction names generalizing seen with
  | nil => exact List.nodup_nil
  | cons name rest ih =>
    by_cases h : name ∈ seen
    · rw [fresh_cons_of_mem h]
      exact ih
    · rw [fresh_cons_of_notMem h]
      exact List.nodup_cons.mpr ⟨by simp, ih⟩

end Fresh

/-! ### Levels

Levels are defined from one another and distances by chains of superclasses, and the two
definitions know nothing of each other.  `mem_levels` brings them together.  The
induction has to be on both parts at once: a class is new in a level if no shorter chain
leads to it, and for this the levels above have to be known.
-/

namespace Dump

/-- Some class with a name is declared an interface. -/
def Program.DeclaresInterface (p : Program) (name : String) : Prop :=
  ∃ c ∈ p.classes, c.name = name ∧ c.modifiers &&& 0x200 ≠ 0

instance {p : Program} {name : String} : Decidable (p.DeclaresInterface name) :=
  inferInstanceAs (Decidable (∃ c ∈ p.classes, _))

/-- A chain of so many superclasses leads from a class up to the root. -/
inductive Program.Descends (p : Program) (root : String) : Nat → String → Prop
  | root : p.Descends root 0 root
  | extend {k : Nat} {parent : String} {c : Class} (hparent : p.Descends root k parent)
      (hc : c ∈ p.classes) (hsuper : c.superClass = some parent) : p.Descends root (k + 1) c.name

/-- The shortest chain of superclasses from a class up to the root has so many links. -/
def Program.Distance (p : Program) (root : String) (k : Nat) (name : String) : Prop :=
  p.Descends root k name ∧ ∀ j < k, ¬ p.Descends root j name

mutual

/-- The levels before a level, one after the other. -/
def Program.above (p : Program) (root : String) : Nat → List String
  | 0 => []
  | k + 1 => p.above root k ++ p.level root k

/-- A level: the direct subclasses of the classes one level up, in their order, each listed
where it stands first, and not if an earlier level has it. -/
def Program.level (p : Program) (root : String) : Nat → List String
  | 0 => [root]
  | k + 1 => fresh (p.above root k ++ p.level root k) ((p.level root k).flatMap p.extending)

end

/-- The levels from the first one below the root, as many as there are to be. -/
def Program.below (p : Program) (root : String) (levels : Nat) : List String :=
  (List.range levels).flatMap fun k => p.level root (k + 1)

namespace Program

variable {p : Program} {root name parent : String} {j k n : Nat}

theorem descends_succ : p.Descends root (k + 1) name ↔
    ∃ parent, p.Descends root k parent ∧ name ∈ p.extending parent := by
  constructor
  · intro h
    cases h with
    | extend hparent hc hsuper => exact ⟨_, hparent, mem_extending.mpr ⟨_, hc, rfl, hsuper⟩⟩
  · intro h
    obtain ⟨parent, hparent, hname⟩ := h
    obtain ⟨c, hc, rfl, hsuper⟩ := mem_extending.mp hname
    exact .extend hparent hc hsuper

theorem above_succ : p.above root (k + 1) = p.above root k ++ p.level root k := by
  rw [above]

theorem level_succ :
    p.level root (k + 1) = fresh (p.above root (k + 1)) ((p.level root k).flatMap p.extending) := by
  rw [level, above]

theorem below_succ : p.below root (k + 1) = p.below root k ++ p.level root (k + 1) := by
  rw [below, List.range_succ, List.flatMap_append, List.flatMap_singleton, below]

theorem above_succ_eq_cons : p.above root (k + 1) = root :: p.below root k := by
  induction k with
  | zero => rfl
  | succ k ih => rw [above_succ, ih, below_succ, List.cons_append]

/-- A class stands in the level of its distance, and above all deeper ones. -/
theorem mem_levels : (∀ name, name ∈ p.above root k ↔ ∃ j < k, p.Descends root j name) ∧
    ∀ name, name ∈ p.level root k ↔ p.Distance root k name := by
  induction k with
  | zero =>
    refine ⟨fun name => by simp [above], fun name => ?_⟩
    rw [level, List.mem_singleton]
    constructor
    · intro h
      subst h
      exact ⟨.root, fun j hj => absurd hj (Nat.not_lt_zero j)⟩
    · intro h
      cases h.1
      rfl
  | succ k ih =>
    obtain ⟨habove, hlevel⟩ := ih
    have habove' : ∀ name, name ∈ p.above root (k + 1) ↔ ∃ j < k + 1, p.Descends root j name := by
      intro name
      rw [above_succ, List.mem_append, habove, hlevel, Distance, Nat.exists_lt_succ_right]
      by_cases h : ∃ j < k, p.Descends root j name
      · exact iff_of_true (.inl h) (.inl h)
      · have hnew : ∀ j < k, ¬ p.Descends root j name := fun j hj hdesc => h ⟨j, hj, hdesc⟩
        rw [or_iff_right h, or_iff_right h, and_iff_left hnew]
    refine ⟨habove', fun name => ?_⟩
    rw [level_succ, mem_fresh, habove', List.mem_flatMap, Distance, descends_succ]
    constructor
    · intro h
      obtain ⟨⟨parent, hparent, hname⟩, hnew⟩ := h
      exact ⟨⟨parent, ((hlevel parent).mp hparent).1, hname⟩,
        fun j hj hdesc => hnew ⟨j, hj, hdesc⟩⟩
    · intro h
      obtain ⟨⟨parent, hparent, hname⟩, hnew⟩ := h
      refine ⟨⟨parent, (hlevel parent).mpr ⟨hparent, ?_⟩, hname⟩,
        fun ⟨j, hj, hdesc⟩ => hnew j hj hdesc⟩
      -- A shorter chain to the parent would be a shorter one to the class.
      intro j hj hshort
      exact hnew (j + 1) (by omega) (descends_succ.mpr ⟨parent, hshort, hname⟩)

theorem mem_above : name ∈ p.above root k ↔ ∃ j < k, p.Descends root j name :=
  mem_levels.1 name

theorem mem_level : name ∈ p.level root k ↔ p.Distance root k name :=
  mem_levels.2 name

theorem nodup_above : (p.above root k).Nodup := by
  induction k with
  | zero => exact List.nodup_nil
  | succ k ih =>
    rw [above_succ]
    refine ih.append ?_ ?_
    · cases k with
      | zero => exact List.nodup_singleton root
      | succ k => exact level_succ ▸ nodup_fresh
    · intro name habove hlevel
      obtain ⟨j, hj, hdesc⟩ := mem_above.mp habove
      exact (mem_level.mp hlevel).2 j hj hdesc

/-- A class that descends from the root has a distance from it. -/
theorem Descends.distance (h : p.Descends root k name) : ∃ j, p.Distance root j name := by
  induction k using Nat.strongRecOn with
  | ind k ih =>
    by_cases hshort : ∃ j < k, p.Descends root j name
    · obtain ⟨j, hj, hdesc⟩ := hshort
      exact ih j hj hdesc
    · exact ⟨k, h, fun j hj hdesc => hshort ⟨j, hj, hdesc⟩⟩

/-! ### Levels run empty

A level after an empty one is empty.  So as long as there are levels each adds a class,
and there are only so many classes to add.
-/

theorem level_eq_nil_of_le (h : p.level root j = []) (hjk : j ≤ k) : p.level root k = [] := by
  induction hjk with
  | refl => exact h
  | step _ ih => rw [level_succ, ih]; rfl

theorem length_le_above (h : p.level root k ≠ []) : k + 1 ≤ (p.above root (k + 1)).length := by
  induction k with
  | zero => exact Nat.le_refl 1
  | succ k ih =>
    have hk : p.level root k ≠ [] := fun hnil => h (level_eq_nil_of_le hnil (Nat.le_succ k))
    have hpos := List.length_pos_of_ne_nil h
    have hlength := ih hk
    rw [above_succ, List.length_append]
    omega

end Program

end Dump

/-! ### The walk goes level by level

The classes of a level stand at the front of the queue when it is reached, with nothing
behind them, and looking them up puts the next level behind them.  `walk_append` takes
the front of a queue away in one go, and `walk_atLevel` is the step from a level to the
next.
-/

namespace Hierarchy

open Dump (Program)

variable {h : Hierarchy} {p : Program} {name root : String} {k n steps : Nat}

/-- The walk before its first step. -/
def Walk.start (name : String) : Walk := ⟨[name], [name], []⟩

theorem isInterface_ofProgram :
    (ofProgram p).isInterface name = decide (p.DeclaresInterface name) := by
  rw [Bool.eq_iff_iff, isInterface_iff, decide_eq_true_eq, Program.DeclaresInterface]

/-- Meeting classes one after the other is meeting those that are new. -/
theorem foldl_meet (names seen queue found : List String) :
    names.foldl h.meet ⟨seen, queue, found⟩ =
      ⟨(fresh seen names).reverse ++ seen, queue ++ fresh seen names,
        found ++ (fresh seen names).filter fun name => !h.isInterface name⟩ := by
  induction names generalizing seen queue found with
  | nil => simp [fresh]
  | cons name rest ih =>
    rw [List.foldl_cons, meet]
    by_cases hseen : name ∈ seen
    · rw [if_pos (List.contains_iff_mem.mpr hseen), ih, fresh_cons_of_mem hseen]
    · rw [if_neg (List.contains_iff_mem.not.mpr hseen), ih, fresh_cons_of_notMem hseen]
      cases hinterface : h.isInterface name <;> simp [hinterface]

/-- Classes at the front of the queue are looked up one after the other. -/
theorem walk_append (h : Hierarchy) (steps : Nat) (names seen rest found : List String) :
    h.walk (names.length + steps) ⟨seen, names ++ rest, found⟩ =
      h.walk steps ((names.flatMap h.directSubclasses).foldl h.meet ⟨seen, rest, found⟩) := by
  induction names generalizing seen rest found with
  | nil => simp
  | cons name names ih =>
    let new := fresh seen (h.directSubclasses name)
    let found' := found ++ new.filter fun name => !h.isInterface name
    rw [List.length_cons, Nat.add_right_comm, List.flatMap_cons, List.foldl_append]
    calc h.walk (names.length + steps + 1) ⟨seen, name :: (names ++ rest), found⟩
      _ = h.walk (names.length + steps) ((h.directSubclasses name).foldl h.meet
            ⟨seen, names ++ rest, found⟩) := rfl
      _ = h.walk (names.length + steps) ⟨new.reverse ++ seen, names ++ (rest ++ new), found'⟩ := by
        rw [foldl_meet, ← List.append_assoc]
      _ = h.walk steps ((names.flatMap h.directSubclasses).foldl h.meet
            ⟨new.reverse ++ seen, rest ++ new, found'⟩) := ih ..
      _ = _ := by rw [foldl_meet (h.directSubclasses name) seen rest found]

/-- The walk when it has looked all levels above a level up. -/
def Walk.atLevel (p : Program) (root : String) (k : Nat) : Walk where
  seen := (p.above root (k + 1)).reverse
  queue := p.level root k
  found := (p.below root k).filter fun name => !p.DeclaresInterface name

/-- Looking all classes of a level up leaves the next level in the queue. -/
theorem walk_atLevel : (ofProgram p).walk ((p.level root k).length + steps) (.atLevel p root k) =
    (ofProgram p).walk steps (.atLevel p root (k + 1)) := by
  have hnew : fresh (p.above root (k + 1)).reverse ((p.level root k).flatMap p.extending) =
      p.level root (k + 1) := by
    rw [Program.level_succ]
    exact fresh_congr fun name => List.mem_reverse
  have happend := walk_append (ofProgram p) steps (p.level root k)
    (p.above root (k + 1)).reverse []
    ((p.below root k).filter fun name => !p.DeclaresInterface name)
  rw [List.append_nil, directSubclasses_ofProgram, foldl_meet, hnew, List.nil_append] at happend
  rw [Walk.atLevel, happend, Walk.atLevel, Program.below_succ, Program.above_succ (k := k + 1),
    List.reverse_append, List.filter_append]
  simp only [isInterface_ofProgram]

/-- **After as many steps as there are classes above a level, that level is the queue.** -/
theorem walk_above : (ofProgram p).walk ((p.above root k).length + steps) (.start root) =
    (ofProgram p).walk steps (.atLevel p root k) := by
  induction k generalizing steps with
  | zero => rw [Program.above, List.length_nil, Nat.zero_add]; rfl
  | succ k ih => rw [Program.above_succ, List.length_append, Nat.add_assoc, ih, walk_atLevel]

theorem length_above_le (p : Program) (root : String) (k : Nat) :
    (p.above root k).length ≤ (ofProgram p).edges.length + 1 := by
  have hsubset : p.above root k ⊆ root :: (ofProgram p).edges.map (·.2) := by
    intro name hname
    obtain ⟨j, -, hdesc⟩ := Program.mem_above.mp hname
    cases hdesc with
    | root => exact List.mem_cons_self
    | @extend j parent c _ hc hsuper =>
      have hedge : (parent, c.name) ∈ (ofProgram p).edges :=
        List.mem_filterMap.mpr ⟨c, hc, by rw [hsuper]; rfl⟩
      exact List.mem_cons_of_mem root (List.mem_map.mpr ⟨_, hedge, rfl⟩)
  simpa using Program.nodup_above.length_le_of_subset hsubset

/-- No class is farther below the root than there are edges. -/
theorem level_eq_nil (hk : (ofProgram p).edges.length < k) : p.level root k = [] := by
  by_contra hne
  have hlength := Program.length_le_above hne
  have hbound := length_above_le p root (k + 1)
  omega

theorem walk_of_queue_eq_nil {w : Walk} (hqueue : w.queue = []) : h.walk steps w = w := by
  cases steps with
  | zero => rfl
  | succ steps => rw [walk, hqueue]

/-- **One step for each edge, and one for the root, is enough for all levels.** -/
theorem walk_eq_atLevel (p : Program) (root : String) (steps : Nat)
    (hsteps : (ofProgram p).edges.length < steps) :
    (ofProgram p).walk steps (.start root) = .atLevel p root ((ofProgram p).edges.length + 1) := by
  have hbound := length_above_le p root ((ofProgram p).edges.length + 1)
  obtain ⟨rest, rfl⟩ := Nat.exists_eq_add_of_le (Nat.le_trans hbound hsteps)
  rw [walk_above]
  exact walk_of_queue_eq_nil (level_eq_nil (Nat.lt_succ_self _))

end Hierarchy

/-! ### What is found

All levels together are what descends from the root.  `IsClosure` is read off them
without going back to the walk: they are disjoint, each holds the classes of its
distance, and they are listed in the order of distances.
-/

/-- A list is made of the classes below a class that no declaration makes an interface, each once,
nearer ones first. -/
structure Dump.Program.IsClosure (p : Program) (root : String) (found : List String) : Prop where
  nodup : found.Nodup
  mem_iff : ∀ name, name ∈ found ↔
    name ≠ root ∧ (∃ k, p.Descends root (k + 1) name) ∧ ¬ p.DeclaresInterface name
  eq_levels : ∃ n, (∀ k, n < k → p.level root k = []) ∧
    found = (p.below root n).filter fun name => !p.DeclaresInterface name
  distances : found.Pairwise fun a b => ∃ i j, p.Distance root i a ∧ p.Distance root j b ∧ i ≤ j

namespace Dump.Program

variable {p : Program} {root name : String} {n : Nat}

theorem nodup_cons_below : (root :: p.below root n).Nodup := by
  rw [← above_succ_eq_cons]
  exact nodup_above

/-- Where the levels end, every class below the root has been listed. -/
theorem mem_cons_below (hn : ∀ k, n < k → p.level root k = []) :
    name ∈ root :: p.below root n ↔ ∃ k, p.Descends root k name := by
  rw [← above_succ_eq_cons, mem_above]
  constructor
  · intro h
    obtain ⟨k, -, hdesc⟩ := h
    exact ⟨k, hdesc⟩
  · intro h
    obtain ⟨k, hdesc⟩ := h
    obtain ⟨j, hdistance⟩ := hdesc.distance
    by_cases hj : j ≤ n
    · exact ⟨j, by omega, hdistance.1⟩
    · have hmem := mem_level.mpr hdistance
      rw [hn j (by omega)] at hmem
      cases hmem

theorem exists_descends_succ (hroot : name ≠ root) :
    (∃ k, p.Descends root (k + 1) name) ↔ ∃ k, p.Descends root k name := by
  constructor
  · intro h
    obtain ⟨k, hdesc⟩ := h
    exact ⟨k + 1, hdesc⟩
  · intro h
    obtain ⟨k, hdesc⟩ := h
    cases k with
    | zero => cases hdesc; exact absurd rfl hroot
    | succ k => exact ⟨k, hdesc⟩

theorem mem_below (hn : ∀ k, n < k → p.level root k = []) :
    name ∈ p.below root n ↔ name ≠ root ∧ ∃ k, p.Descends root (k + 1) name := by
  by_cases hroot : name = root
  · subst hroot
    exact iff_of_false (List.nodup_cons.mp nodup_cons_below).1 (fun h => h.1 rfl)
  · rw [and_iff_right hroot, exists_descends_succ hroot, ← mem_cons_below hn, List.mem_cons,
      or_iff_right hroot]

theorem pairwise_below :
    (p.below root n).Pairwise fun a b =>
      ∃ i j, p.Distance root i a ∧ p.Distance root j b ∧ i ≤ j := by
  refine List.pairwise_flatMap.mpr ⟨fun k _ => ?_, ?_⟩
  · refine List.pairwise_of_forall_mem_list fun a ha b hb => ?_
    exact ⟨k + 1, k + 1, mem_level.mp ha, mem_level.mp hb, Nat.le_refl _⟩
  · refine List.pairwise_lt_range.imp fun {j k} hjk a ha b hb => ?_
    exact ⟨j + 1, k + 1, mem_level.mp ha, mem_level.mp hb, by omega⟩

theorem isClosure_below (hn : ∀ k, n < k → p.level root k = []) :
    p.IsClosure root ((p.below root n).filter fun name => !p.DeclaresInterface name) where
  nodup := (List.nodup_cons.mp nodup_cons_below).2.filter _
  mem_iff name := by
    rw [List.mem_filter, mem_below hn]
    simp [and_assoc]
  eq_levels := ⟨n, hn, rfl⟩
  distances := pairwise_below.filter _

end Dump.Program

namespace Hierarchy

open Dump (Program)

theorem contains_iff {p : Program} {name : String} :
    (ofProgram p).contains name = true ↔ ∃ c ∈ p.classes, c.name = name := by
  rw [contains, List.contains_iff_mem, ofProgram, List.mem_map]

/-- **Whatever the dump declares, the classes found below a class are those that a chain of
superclasses leads up from, nearest first, and the interfaces among them are left out.  Nothing is
answered only where no class has the name, and a walk of any length beyond the number of edges ends
and finds the same.** -/
theorem subclasses_exact (p : Program) (name : String) :
    ((ofProgram p).subclasses? name = none ↔ ∀ c ∈ p.classes, c.name ≠ name) ∧
      ((∃ c ∈ p.classes, c.name = name) →
        ∃ found, (ofProgram p).subclasses? name = some found ∧ p.IsClosure name found ∧
          ∀ steps, (ofProgram p).edges.length < steps →
            ∃ seen, (ofProgram p).walk steps (.start name) = ⟨seen, [], found⟩) := by
  have hwalk := walk_eq_atLevel p name
  have hsubclasses : (∃ c ∈ p.classes, c.name = name) → (ofProgram p).subclasses? name =
      some (Walk.atLevel p name ((ofProgram p).edges.length + 1)).found := by
    intro hname
    rw [subclasses?, if_pos (contains_iff.mpr hname), ← hwalk _ (Nat.lt_succ_self _)]
    rfl
  constructor
  · constructor
    · intro hnone c hc hname
      rw [hsubclasses ⟨c, hc, hname⟩] at hnone
      cases hnone
    · intro hname
      rw [subclasses?, if_neg]
      intro hcontains
      obtain ⟨c, hc, hc'⟩ := contains_iff.mp hcontains
      exact hname c hc hc'
  · intro hname
    have hempty : ∀ k, (ofProgram p).edges.length + 1 < k → p.level name k = [] :=
      fun k hk => level_eq_nil (by omega)
    refine ⟨_, hsubclasses hname, Program.isClosure_below hempty, fun steps hsteps => ?_⟩
    refine ⟨(p.above name ((ofProgram p).edges.length + 2)).reverse, ?_⟩
    rw [hwalk steps hsteps, Walk.atLevel, level_eq_nil (Nat.lt_succ_self _)]

/-- A dump with a circle, a class that extends itself, a superclass that is missing, an interface
between two classes and a name declared twice, the second time as an interface. -/
def tangle : Program :=
  ⟨.singleAssignment, [
    { Dump.Class.ofName "a.Root" with superClass := some "a.Leaf" },
    { Dump.Class.ofName "a.Self" with superClass := some "a.Self" },
    { Dump.Class.ofName "a.Shape" with superClass := some "a.Root", modifiers := 0x601 },
    { Dump.Class.ofName "a.Near" with superClass := some "a.Root" },
    { Dump.Class.ofName "a.Leaf" with superClass := some "a.Shape" },
    { Dump.Class.ofName "a.Twice" with superClass := some "a.Near" },
    { Dump.Class.ofName "a.Twice" with superClass := some "a.Missing", modifiers := 0x601 },
    { Dump.Class.ofName "a.Late" with superClass := some "a.Twice" },
    { Dump.Class.ofName "a.Late" with superClass := some "a.Root" }]⟩

theorem subclasses_exact_tangle : (∃ c ∈ tangle.classes, c.name = "a.Root") ∧
    (ofProgram tangle).edges.length < 10 ∧
    (ofProgram tangle).subclasses? "a.Root" = some ["a.Near", "a.Late", "a.Leaf"] ∧
    tangle.IsClosure "a.Root" ["a.Near", "a.Late", "a.Leaf"] ∧
    ∃ seen, (ofProgram tangle).walk 10 (.start "a.Root") =
      ⟨seen, [], ["a.Near", "a.Late", "a.Leaf"]⟩ := by
  have hname : ∃ c ∈ tangle.classes, c.name = "a.Root" := by decide
  obtain ⟨found, hfound, hclosure, hwalk⟩ := (subclasses_exact tangle "a.Root").2 hname
  have hlist : found = ["a.Near", "a.Late", "a.Leaf"] := by
    rw [← Option.some.injEq, ← hfound]
    decide +kernel
  subst hlist
  exact ⟨hname, by decide, hfound, hclosure, hwalk 10 (by decide)⟩

end Hierarchy

end BytecodeIR

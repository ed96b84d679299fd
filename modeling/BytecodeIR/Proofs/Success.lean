/-
When a computation that may fail succeeds.

Reading and converting both stop at the first failure, so each of them is a chain
of steps in `Except`.  A chain succeeds exactly when every step does, and the
lemmas here say so once for each way of chaining: one step after another, a step
for every element of a list, a check for every element of a list.  Everything
later that starts from "the conversion succeeded" takes it apart with them.

Something is looked for in lists too, by a key that every element has; where keys are
distinct the one element that has the key is found.

The last lemmas compare two chains: if each step of the one fails as the step of the
other does, but for a replacement of the error, then so does the whole chain.
-/
import Mathlib.Data.List.Forall2
import Mathlib.Data.List.Nodup

namespace BytecodeIR

variable {ε α β : Type}

/-! ### Lists that are related element by element -/

section Pairs

variable {R : α → β → Prop} {xs : List α} {ys : List β}

theorem forall₂_getElem? (h : List.Forall₂ R xs ys) {k : Nat} {x : α} {y : β}
    (hx : xs[k]? = some x) (hy : ys[k]? = some y) : R x y := by
  obtain ⟨hk, rfl⟩ := List.getElem?_eq_some_iff.mp hx
  obtain ⟨hk', rfl⟩ := List.getElem?_eq_some_iff.mp hy
  exact h.get hk hk'

/-- Every element of the one list has a partner in the other, at the same place. -/
theorem forall₂_exists_left (h : List.Forall₂ R xs ys) {k : Nat} {y : β} (hy : ys[k]? = some y) :
    ∃ x, xs[k]? = some x ∧ R x y := by
  obtain ⟨hk, -⟩ := List.getElem?_eq_some_iff.mp hy
  have hx := List.getElem?_eq_getElem (h.length_eq ▸ hk : k < xs.length)
  exact ⟨_, hx, forall₂_getElem? h hx hy⟩

theorem forall₂_exists_right (h : List.Forall₂ R xs ys) {k : Nat} {x : α}
    (hx : xs[k]? = some x) : ∃ y, ys[k]? = some y ∧ R x y := by
  obtain ⟨hk, -⟩ := List.getElem?_eq_some_iff.mp hx
  have hy := List.getElem?_eq_getElem (h.length_eq ▸ hk : k < ys.length)
  exact ⟨_, hy, forall₂_getElem? h hx hy⟩

theorem forall₂_mem_left (h : List.Forall₂ R xs ys) {y : β} (hy : y ∈ ys) : ∃ x ∈ xs, R x y := by
  obtain ⟨k, hk⟩ := List.getElem?_of_mem hy
  obtain ⟨x, hx, hxy⟩ := forall₂_exists_left h hk
  exact ⟨x, List.mem_of_getElem? hx, hxy⟩

theorem forall₂_mem_right (h : List.Forall₂ R xs ys) {x : α} (hx : x ∈ xs) : ∃ y ∈ ys, R x y := by
  obtain ⟨k, hk⟩ := List.getElem?_of_mem hx
  obtain ⟨y, hy, hxy⟩ := forall₂_exists_right h hk
  exact ⟨y, List.mem_of_getElem? hy, hxy⟩

/-- Where the one list is cut, the other can be cut too. -/
theorem forall₂_append_left {xs' : List α} (h : List.Forall₂ R (xs ++ xs') ys) :
    ∃ l r, ys = l ++ r ∧ List.Forall₂ R xs l ∧ List.Forall₂ R xs' r := by
  induction xs generalizing ys with
  | nil => exact ⟨[], ys, rfl, .nil, h⟩
  | cons x xs ih =>
      obtain ⟨y, rest, hxy, hrest, rfl⟩ := List.forall₂_cons_left_iff.mp h
      obtain ⟨l, r, rfl, hl, hr⟩ := ih hrest
      exact ⟨y :: l, r, rfl, .cons hxy hl, hr⟩

/-- Lists that are both related to a third one are related through its elements. -/
theorem forall₂_through {γ : Type} {S : α → γ → Prop} {zs : List γ} (h : List.Forall₂ R xs ys)
    (h' : List.Forall₂ S xs zs) : List.Forall₂ (fun y z => ∃ x, R x y ∧ S x z) ys zs := by
  induction h generalizing zs with
  | nil =>
      cases h'
      exact .nil
  | cons hxy _ ih =>
      obtain ⟨z, rest, hxz, hrest, rfl⟩ := List.forall₂_cons_left_iff.mp h'
      exact .cons ⟨_, hxy, hxz⟩ (ih hrest)

/-- A list of partners exists as soon as every element has one. -/
theorem exists_forall₂ : (∃ ys, List.Forall₂ R xs ys) ↔ ∀ x ∈ xs, ∃ y, R x y := by
  constructor
  · rintro ⟨ys, h⟩ x hx
    obtain ⟨y, -, hxy⟩ := forall₂_mem_right h hx
    exact ⟨y, hxy⟩
  · intro h
    induction xs with
    | nil => exact ⟨[], .nil⟩
    | cons x rest ih =>
        obtain ⟨y, hy⟩ := h x List.mem_cons_self
        obtain ⟨ys, hys⟩ := ih fun z hz => h z (List.mem_cons_of_mem _ hz)
        exact ⟨y :: ys, .cons hy hys⟩

end Pairs

/-! ### Lists with a key for every element -/

/-- If no two elements have one key, then the one that has a key is found under it. -/
theorem find?_key_eq_some {κ : Type} [BEq κ] [LawfulBEq κ] {key : α → κ} {xs : List α}
    (h : (xs.map key).Nodup) {k : κ} {x : α} :
    (xs.find? fun y => key y == k) = some x ↔ x ∈ xs ∧ key x = k := by
  constructor
  · intro hfind
    exact ⟨List.mem_of_find?_eq_some hfind, by simpa using List.find?_some hfind⟩
  · rintro ⟨hx, rfl⟩
    have hsome : (xs.find? fun y => key y == key x).isSome :=
      List.find?_isSome.mpr ⟨x, hx, by simp⟩
    obtain ⟨y, hy⟩ := Option.isSome_iff_exists.mp hsome
    have hkey : key y = key x := by simpa using List.find?_some hy
    rw [hy, List.inj_on_of_nodup_map h (List.mem_of_find?_eq_some hy) hx hkey]

/-! ### Chains of steps

Each way of chaining gets an equivalence in terms of its steps, so that a hypothesis on
a whole computation can be taken apart from the outside to the inside, and a goal put
together in the same order.
-/

/-- Two steps succeed exactly when both do. -/
theorem bind_eq_ok {x : Except ε α} {f : α → Except ε β} {b : β} :
    (x >>= f) = .ok b ↔ ∃ a, x = .ok a ∧ f a = .ok b := by
  cases x with
  | error e => simp [bind, Except.bind]
  | ok a => simp [bind, Except.bind]

/-- Two steps fail exactly when the first does, or the second after it. -/
theorem bind_eq_error {x : Except ε α} {f : α → Except ε β} {e : ε} :
    (x >>= f) = .error e ↔ x = .error e ∨ ∃ a, x = .ok a ∧ f a = .error e := by
  cases x with
  | error e' => simp [bind, Except.bind]
  | ok a => simp [bind, Except.bind]

/-- Two steps come to the same if each of them does. -/
theorem bind_eq_bind {x x' : Except ε α} {f f' : α → Except ε β} (hx : x' = x)
    (hf : ∀ a, f' a = f a) : x' >>= f' = x >>= f := by
  rw [hx, funext hf]

/-- Two steps come to the same if the second ones do on what the first one results in. -/
theorem bind_congr_ok {x : Except ε α} {f g : α → Except ε β} (h : ∀ a, x = .ok a → f a = g a) :
    x >>= f = x >>= g := by
  cases x with
  | error e => rfl
  | ok a => exact h a rfl

theorem map_eq_ok {x : Except ε α} {f : α → β} {b : β} :
    x.map f = .ok b ↔ ∃ a, x = .ok a ∧ f a = b := by
  cases x with
  | error e => simp [Except.map]
  | ok a => simp [Except.map]

theorem map_eq_error {x : Except ε α} {f : α → β} {e : ε} :
    x.map f = .error e ↔ x = .error e := by
  cases x with
  | error e' => simp [Except.map]
  | ok a => simp [Except.map]

theorem mapError_eq_ok {ε' : Type} {x : Except ε α} {f : ε → ε'} {a : α} :
    x.mapError f = .ok a ↔ x = .ok a := by
  cases x with
  | error e => simp [Except.mapError]
  | ok b => simp [Except.mapError]

theorem mapError_eq_error {ε' : Type} {g : ε → ε'} {x : Except ε α} {e' : ε'} :
    x.mapError g = .error e' ↔ ∃ e, x = .error e ∧ g e = e' := by
  cases x with
  | error e => simp [Except.mapError]
  | ok b => simp [Except.mapError]

/-- A result that is given under a condition is given as it is. -/
theorem eq_of_ite_eq_ok {c : Prop} [Decidable c] {a b : α} {e : ε}
    (h : (if c then .ok a else .error e : Except ε α) = .ok b) : a = b := by
  split at h
  · exact Except.ok.inj h
  · cases h

/-- A step for every element succeeds exactly when each of them does. -/
theorem mapM_eq_ok {f : α → Except ε β} {xs : List α} {ys : List β} :
    xs.mapM f = .ok ys ↔ List.Forall₂ (fun x y => f x = .ok y) xs ys := by
  induction xs generalizing ys with
  | nil =>
      rw [List.mapM_nil, List.forall₂_nil_left_iff]
      exact ⟨fun h => (Except.ok.inj h).symm, fun h => h ▸ rfl⟩
  | cons x rest ih =>
      rw [List.mapM_cons, bind_eq_ok]
      constructor
      · rintro ⟨y, hy, hrest⟩
        obtain ⟨more, hmore, hys⟩ := bind_eq_ok.mp hrest
        obtain rfl : y :: more = ys := Except.ok.inj hys
        exact .cons hy (ih.mp hmore)
      · intro h
        cases h with
        | cons hy hrest => exact ⟨_, hy, bind_eq_ok.mpr ⟨_, ih.mpr hrest, rfl⟩⟩

/-- A step for every element succeeds somehow exactly when each of them can. -/
theorem exists_mapM_eq_ok {f : α → Except ε β} {xs : List α} :
    (∃ ys, xs.mapM f = .ok ys) ↔ ∀ x ∈ xs, ∃ y, f x = .ok y := by
  simp only [mapM_eq_ok, exists_forall₂]

/-- A step for every element fails as it does for the first element that it fails for. -/
theorem mapM_eq_error {f : α → Except ε β} {xs : List α} {e : ε} :
    xs.mapM f = .error e ↔ ∃ before x after, xs = before ++ x :: after ∧
      (∀ y ∈ before, ∃ z, f y = .ok z) ∧ f x = .error e := by
  induction xs with
  | nil => simp [pure, Except.pure]
  | cons x rest ih =>
      rw [List.mapM_cons, bind_eq_error]
      constructor
      · rintro (hx | ⟨z, hz, hrest⟩)
        · exact ⟨[], x, rest, rfl, List.forall_mem_nil _, hx⟩
        · rcases bind_eq_error.mp hrest with hrest | ⟨zs, -, hpure⟩
          · obtain ⟨before, y, after, hsplit, hbefore, hy⟩ := ih.mp hrest
            exact ⟨x :: before, y, after, congrArg (x :: ·) hsplit,
              List.forall_mem_cons.mpr ⟨⟨z, hz⟩, hbefore⟩, hy⟩
          · cases hpure
      · rintro ⟨before, y, after, hsplit, hbefore, hy⟩
        rcases List.cons_eq_append_iff.mp hsplit with ⟨rfl, hsplit⟩ | ⟨more, rfl, hrest⟩
        · obtain ⟨rfl, -⟩ := List.cons.inj hsplit
          exact .inl hy
        · obtain ⟨⟨z, hz⟩, hmore⟩ := List.forall_mem_cons.mp hbefore
          exact .inr ⟨z, hz, bind_eq_error.mpr (.inl (ih.mpr ⟨more, y, after, hrest, hmore, hy⟩))⟩

/-- Steps that only check their element and then compute with it. -/
theorem mapM_eq_ok_of_guard {f : α → Except ε β} {p : α → Prop} {g : α → β}
    (hf : ∀ x y, f x = .ok y ↔ p x ∧ g x = y) {xs : List α} {ys : List β} :
    xs.mapM f = .ok ys ↔ (∀ x ∈ xs, p x) ∧ xs.map g = ys := by
  rw [mapM_eq_ok]
  simp only [hf]
  rw [List.forall₂_and_left, List.forall₂_map_left_iff.symm, List.forall₂_eq_eq_eq]

/-- A check of every element passes exactly when each of them passes. -/
theorem forM_eq_ok {f : α → Except ε Unit} {xs : List α} :
    xs.forM f = .ok () ↔ ∀ x ∈ xs, f x = .ok () := by
  induction xs with
  | nil => simp [pure, Except.pure]
  | cons x rest ih =>
      show (f x >>= fun _ => rest.forM f) = .ok () ↔ _
      rw [bind_eq_ok, List.forall_mem_cons, ih]
      exact ⟨fun ⟨(), h⟩ => h, fun h => ⟨(), h⟩⟩

/-- A check of every element fails as it does for one of them. -/
theorem exists_of_forM_eq_error {f : α → Except ε Unit} {xs : List α} {e : ε}
    (h : xs.forM f = .error e) : ∃ x ∈ xs, f x = .error e := by
  induction xs with
  | nil => simp [pure, Except.pure] at h
  | cons x rest ih =>
      have hstep : (f x >>= fun _ => rest.forM f) = .error e := h
      cases hx : f x with
      | error e' =>
          rw [hx] at hstep
          obtain rfl : e' = e := Except.error.inj hstep
          exact ⟨x, List.mem_cons_self, hx⟩
      | ok u =>
          rw [hx] at hstep
          obtain ⟨y, hy, he⟩ := ih hstep
          exact ⟨y, List.mem_cons_of_mem _ hy, he⟩

/-! ### Replacing the error -/

section Replaced

variable {ε' γ : Type} {g : ε → ε'}

theorem mapError_bind {x : Except ε α} {f : α → Except ε β} :
    (x >>= f).mapError g = x.mapError g >>= fun a => (f a).mapError g := by
  cases x with
  | error e => rfl
  | ok a => rfl

theorem map_bind {x : Except ε α} {f : α → Except ε β} {h : β → γ} :
    (x >>= f).map h = x >>= fun a => (f a).map h := by
  cases x with
  | error e => rfl
  | ok a => rfl

/-- A chain fails in another way if each of its steps does. -/
theorem bind_eq_mapError {x : Except ε α} {f : α → Except ε β} {x' : Except ε' α}
    {f' : α → Except ε' β} (hx : x' = x.mapError g) (hf : ∀ a, f' a = (f a).mapError g) :
    x' >>= f' = (x >>= f).mapError g := by
  rw [mapError_bind, hx, funext hf]

/-- A chain fails in another way also if its first step has another result, as long as the next one
allows for that. -/
theorem bind_map_eq_mapError {δ : Type} {x : Except ε α} {f : α → Except ε β} {h : α → δ}
    {x' : Except ε' δ} {f' : δ → Except ε' β} (hx : x' = (x.map h).mapError g)
    (hf : ∀ a, f' (h a) = (f a).mapError g) : x' >>= f' = (x >>= f).mapError g := by
  cases x with
  | error e =>
      rw [hx]
      rfl
  | ok a =>
      rw [hx]
      exact hf a

/-- Steps for other elements fail in another way if each of them does. -/
theorem mapM_map_eq_mapError {f : α → Except ε β} {h : α → γ} {f' : γ → Except ε' β} {xs : List α}
    (hstep : ∀ x ∈ xs, f' (h x) = (f x).mapError g) :
    (xs.map h).mapM f' = (xs.mapM f).mapError g := by
  induction xs with
  | nil => rfl
  | cons x rest ih =>
      rw [List.forall_mem_cons] at hstep
      rw [List.map_cons, List.mapM_cons, List.mapM_cons, mapError_bind, hstep.1, ih hstep.2]
      simp only [mapError_bind]
      rfl

end Replaced

end BytecodeIR

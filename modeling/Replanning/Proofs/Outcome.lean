import Mathlib.Data.List.Forall2

namespace Replanning

variable {ε α β : Type}

/-- A check passes where it can be seen to pass. -/
theorem eq_ok_of_isOk (x : Except ε Unit) (h : x.isOk = true) : x = .ok () := by
  cases x with
  | error e => exact absurd h Bool.false_ne_true
  | ok u => rfl

/-- A sequence succeeds with the result of its second part. -/
theorem bind_eq_ok (x : Except ε α) (f : α → Except ε β) (b : β) :
    (x >>= f) = .ok b ↔ ∃ a, x = .ok a ∧ f a = .ok b := by
  cases x with
  | error e => simp only [bind, Except.bind, reduceCtorEq, false_and, exists_false]
  | ok a => simp only [bind, Except.bind, Except.ok.injEq, exists_eq_left']

/-- A sequence fails in its first part, or in the second one behind it. -/
theorem bind_eq_error (x : Except ε α) (f : α → Except ε β) (err : ε) :
    (x >>= f) = .error err ↔ x = .error err ∨ ∃ a, x = .ok a ∧ f a = .error err := by
  cases x with
  | error e =>
    simp only [bind, Except.bind, Except.error.injEq, reduceCtorEq, false_and, exists_false, or_false]
  | ok a => simp only [bind, Except.bind, Except.ok.injEq, exists_eq_left', reduceCtorEq, false_or]

/-- A sequence whose second part does not fail fails in its first one. -/
theorem bind_pure_eq_error (x : Except ε α) (f : α → β) (err : ε) :
    (x >>= fun a => pure (f a)) = .error err ↔ x = .error err := by
  rw [bind_eq_error]
  refine or_iff_left ?_
  rintro ⟨_, _, h⟩
  cases h

theorem mapError_eq_ok {ε' : Type} (f : ε → ε') (x : Except ε α) (a : α) :
    x.mapError f = .ok a ↔ x = .ok a := by
  cases x with
  | error e => simp only [Except.mapError, reduceCtorEq]
  | ok b => simp only [Except.mapError, Except.ok.injEq]

/-- A computation behind a guard succeeds where the guard does not stop it. -/
theorem guard_eq_ok (p : Prop) [Decidable p] (e : ε) (f : α → Except ε β) (x : Except ε β) (b : β) :
    (if p then throw e >>= f else x) = .ok b ↔ ¬p ∧ x = .ok b := by
  split_ifs with h
  · simp only [throw, throwThe, MonadExceptOf.throw, bind, Except.bind, reduceCtorEq, h,
      not_true_eq_false, false_and]
  · simp only [h, not_false_eq_true, true_and]

/-- A computation behind a guard fails where the guard stops it, or behind the guard. -/
theorem guard_eq_error (p : Prop) [Decidable p] (e : ε) (f : α → Except ε β) (x : Except ε β)
    (err : ε) :
    (if p then throw e >>= f else x) = .error err ↔ p ∧ e = err ∨ ¬p ∧ x = .error err := by
  split_ifs with h
  · simp only [throw, throwThe, MonadExceptOf.throw, bind, Except.bind, Except.error.injEq, h,
      true_and, not_true_eq_false, false_and, or_false]
  · simp only [h, false_and, not_false_eq_true, true_and, false_or]

/-- A lookup finds the entry in front, or goes on behind it. -/
theorem lookup_cons_ite [BEq α] [LawfulBEq α] [DecidableEq α] (a b : α) (v : β)
    (rest : List (α × β)) :
    ((b, v) :: rest).lookup a = if a = b then some v else rest.lookup a := by
  by_cases h : a = b
  · rw [h, List.lookup_cons_self, if_pos rfl]
  · rw [List.lookup_cons, beq_eq_false_iff_ne.mpr h, if_neg h]

/-- The item stands in the list behind items that all have a property. -/
def Behind (P : α → Prop) (xs : List α) (x : α) : Prop :=
  ∃ before after, xs = before ++ x :: after ∧ ∀ y ∈ before, P y

theorem behind_nil (P : α → Prop) (x : α) : ¬Behind P [] x := by
  rintro ⟨before, after, hsplit, _⟩
  exact List.append_ne_nil_of_right_ne_nil before (List.cons_ne_nil x after) hsplit.symm

theorem behind_cons (P : α → Prop) (y : α) (ys : List α) (x : α) :
    Behind P (y :: ys) x ↔ x = y ∨ P y ∧ Behind P ys x := by
  constructor
  · rintro ⟨before, after, hsplit, hbefore⟩
    rcases List.cons_eq_append_iff.mp hsplit with ⟨rfl, hsame⟩ | ⟨front, rfl, rfl⟩
    · exact Or.inl (List.cons.inj hsame).1
    · obtain ⟨hy, hfront⟩ := List.forall_mem_cons.mp hbefore
      exact Or.inr ⟨hy, front, after, rfl, hfront⟩
  · rintro (rfl | ⟨hy, before, after, rfl, hbefore⟩)
    · exact ⟨[], ys, rfl, fun _ h => absurd h List.not_mem_nil⟩
    · exact ⟨y :: before, after, rfl, List.forall_mem_cons.mpr ⟨hy, hbefore⟩⟩

/-- A traversal succeeds where every item does, and its results stand at the places of the items. -/
theorem mapM_forall₂ (f : α → Except ε β) (P : α → β → Prop) (xs : List α)
    (h : ∀ x ∈ xs, ∃ y, f x = .ok y ∧ P x y) :
    ∃ ys, xs.mapM f = .ok ys ∧ List.Forall₂ P xs ys := by
  induction xs with
  | nil => exact ⟨[], rfl, List.Forall₂.nil⟩
  | cons x rest ih =>
    -- the first item succeeds by itself, the others by induction
    obtain ⟨y, hy, hp⟩ := h x List.mem_cons_self
    obtain ⟨ys, hys, hps⟩ := ih fun z hz => h z (List.mem_cons_of_mem x hz)
    refine ⟨y :: ys, ?_, List.Forall₂.cons hp hps⟩
    rw [List.mapM_cons, hy, hys]
    rfl

/-- A traversal of items that all succeed returns their results. -/
theorem mapM_eq_ok (f : α → Except ε β) (g : α → β) (xs : List α)
    (h : ∀ x ∈ xs, f x = .ok (g x)) : xs.mapM f = .ok (xs.map g) := by
  induction xs with
  | nil => rfl
  | cons x rest ih =>
    rw [List.mapM_cons, h x List.mem_cons_self, ih fun y hy => h y (List.mem_cons_of_mem x hy)]
    rfl

/-- The results of a traversal stand at the places of the items that they come from. -/
theorem forall₂_of_mapM (f : α → Except ε β) (xs : List α) (ys : List β)
    (h : xs.mapM f = .ok ys) : List.Forall₂ (fun x y => f x = .ok y) xs ys := by
  induction xs generalizing ys with
  | nil =>
    cases h
    exact List.Forall₂.nil
  | cons x rest ih =>
    rw [List.mapM_cons] at h
    obtain ⟨y, hy, h⟩ := (bind_eq_ok _ _ _).mp h
    obtain ⟨zs, hrest, h⟩ := (bind_eq_ok _ _ _).mp h
    cases h
    exact List.Forall₂.cons hy (ih zs hrest)

/-- Two traversals whose items come to the same, place by place, come to the same. -/
theorem mapM_congr {γ : Type} (f : α → Except ε γ) (g : β → Except ε γ) (xs : List α) (ys : List β)
    (h : List.Forall₂ (fun x y => f x = g y) xs ys) : xs.mapM f = ys.mapM g := by
  induction h with
  | nil => rfl
  | cons hxy _ ih => rw [List.mapM_cons, List.mapM_cons, hxy, ih]

/-- Items that agree place by place make the same list. -/
theorem map_eq_of_forall₂ {γ : Type} (f : α → γ) (g : β → γ) (xs : List α) (ys : List β)
    (h : List.Forall₂ (fun x y => f x = g y) xs ys) : xs.map f = ys.map g := by
  rwa [← List.forall₂_eq_eq_eq, List.forall₂_map_left_iff, List.forall₂_map_right_iff]

/-- Lists with the same images agree place by place, on items that keep what holds in their lists. -/
theorem forall₂_of_map_eq {γ : Type} (f : α → γ) (g : β → γ) (P : α → Prop) (Q : β → Prop)
    (xs : List α) (ys : List β) (h : xs.map f = ys.map g) (hP : ∀ x ∈ xs, P x)
    (hQ : ∀ y ∈ ys, Q y) : List.Forall₂ (fun x y => f x = g y ∧ P x ∧ Q y) xs ys := by
  have hall : List.Forall₂ (fun x y => f x = g y) xs ys := by
    rwa [← List.forall₂_eq_eq_eq, List.forall₂_map_left_iff, List.forall₂_map_right_iff] at h
  clear h
  induction hall with
  | nil => exact List.Forall₂.nil
  | cons hxy _ ih =>
    refine List.Forall₂.cons ⟨hxy, hP _ List.mem_cons_self, hQ _ List.mem_cons_self⟩ (ih ?_ ?_)
    · exact fun x hx => hP x (List.mem_cons_of_mem _ hx)
    · exact fun y hy => hQ y (List.mem_cons_of_mem _ hy)

/-- Lists of pairs that agree have first parts that agree. -/
theorem map_fst_eq {γ δ : Type} (f : α → γ) (f' : α → δ) (g : β → γ) (g' : β → δ) (xs : List α)
    (ys : List β) (h : xs.map (fun x => (f x, f' x)) = ys.map fun y => (g y, g' y)) :
    xs.map f = ys.map g := by
  have hh := congrArg (List.map Prod.fst) h
  rwa [List.map_map, List.map_map] at hh

/-- Every result of a traversal belongs to an item. -/
theorem exists_of_mem_forall₂ (P : α → β → Prop) (xs : List α) (ys : List β)
    (h : List.Forall₂ P xs ys) (y : β) (hy : y ∈ ys) : ∃ x ∈ xs, P x y := by
  induction h with
  | nil => exact absurd hy List.not_mem_nil
  | cons hp _ ih =>
    rcases List.mem_cons.mp hy with rfl | hy
    · exact ⟨_, List.mem_cons_self, hp⟩
    · obtain ⟨x, hx, hpx⟩ := ih hy
      exact ⟨x, List.mem_cons_of_mem _ hx, hpx⟩

/-- A traversal fails with the error of the first item that does. -/
theorem mapM_eq_error (f : α → Except ε β) (xs : List α) (err : ε) :
    xs.mapM f = .error err ↔ ∃ x, Behind (fun y => ∃ z, f y = .ok z) xs x ∧ f x = .error err := by
  induction xs with
  | nil =>
    refine iff_of_false nofun ?_
    rintro ⟨x, hx, _⟩
    exact behind_nil _ x hx
  | cons y ys ih =>
    have hrest (zs : Except ε (List β)) (z : β) :
        (do let rest ← zs; pure (z :: rest)) = .error err ↔ zs = .error err := by
      cases zs with
      | error e => exact Iff.rfl
      | ok zs => exact iff_of_false nofun nofun
    simp only [List.mapM_cons, bind_eq_error, behind_cons, or_and_right, exists_or, exists_eq_left,
      hrest, ih]
    apply or_congr_right
    constructor
    · rintro ⟨z, hz, x, hx, herr⟩
      exact ⟨x, ⟨⟨z, hz⟩, hx⟩, herr⟩
    · rintro ⟨x, ⟨⟨z, hz⟩, hx⟩, herr⟩
      exact ⟨z, hz, x, hx, herr⟩

/-- A traversal succeeds exactly if all items do. -/
theorem mapM_ok_iff (f : α → Except ε β) (xs : List α) :
    (∃ ys, xs.mapM f = .ok ys) ↔ ∀ x ∈ xs, ∃ y, f x = .ok y := by
  constructor
  · rintro ⟨ys, h⟩ x hx
    obtain ⟨y, _, hy⟩ := exists_of_mem_forall₂ _ _ _ (forall₂_of_mapM f xs ys h).flip x hx
    exact ⟨y, hy⟩
  · intro h
    obtain ⟨ys, hys, _⟩ := mapM_forall₂ f (fun _ _ => True) xs
      fun x hx => (h x hx).imp fun y hy => ⟨hy, trivial⟩
    exact ⟨ys, hys⟩

end Replanning

/-! # Computations that can fail

When a computation in `Except` succeeds or fails, and what its parts then give. -/

namespace DefiniteIntegral

variable {ε ε' α β : Type}

theorem bind_eq_ok_iff {x : Except ε α} {f : α → Except ε β} {b : β} :
    x >>= f = .ok b ↔ ∃ a, x = .ok a ∧ f a = .ok b := by
  cases x with
  | error fault => simp [bind, Except.bind]
  | ok a => simp [bind, Except.bind]

theorem bind_eq_error_iff {x : Except ε α} {f : α → Except ε β} {fault : ε} :
    x >>= f = .error fault ↔ x = .error fault ∨ ∃ a, x = .ok a ∧ f a = .error fault := by
  cases x with
  | error fault' => simp [bind, Except.bind]
  | ok a => simp [bind, Except.bind]

@[simp] theorem ok_bind (a : α) (f : α → Except ε β) : .ok a >>= f = f a :=
  rfl

@[simp] theorem map_ok (f : α → β) (a : α) : f <$> (.ok a : Except ε α) = .ok (f a) :=
  rfl

theorem mapError_ok (f : ε → ε') (a : α) : (.ok a : Except ε α).mapError f = .ok a :=
  rfl

theorem mapError_error (f : ε → ε') (fault : ε) :
    (.error fault : Except ε α).mapError f = .error (f fault) :=
  rfl

@[simp] theorem pure_eq_ok_iff {a b : α} : (pure a : Except ε α) = .ok b ↔ a = b := by
  simp [pure, Except.pure]

@[simp] theorem throw_ne_ok {fault : ε} {b : α} : (throw fault : Except ε α) ≠ .ok b := by
  simp [throw, throwThe, MonadExceptOf.throw]

@[simp] theorem mapError_eq_ok_iff {x : Except ε α} {f : ε → ε'} {b : α} :
    x.mapError f = .ok b ↔ x = .ok b := by
  cases x with
  | error fault => exact iff_of_false nofun nofun
  | ok a =>
      constructor
      · intro h
        rw [Except.ok.inj h]
      · rintro ⟨⟩
        rfl

theorem map_eq_ok_iff {x : Except ε α} {f : α → β} {b : β} :
    x.map f = .ok b ↔ ∃ a, x = .ok a ∧ f a = b := by
  cases x with
  | error fault => simp [Except.map]
  | ok a => simp [Except.map]

theorem mapError_eq_error_iff {x : Except ε α} {f : ε → ε'} {fault : ε'} :
    x.mapError f = .error fault ↔ ∃ cause, x = .error cause ∧ f cause = fault := by
  cases x with
  | error cause =>
      constructor
      · intro h
        exact ⟨cause, rfl, Except.error.inj h⟩
      · rintro ⟨_, ⟨⟩, rfl⟩
        rfl
  | ok a => exact iff_of_false nofun fun ⟨_, h, _⟩ => nomatch h

theorem toOption_eq_some_iff {x : Except ε α} {a : α} : x.toOption = some a ↔ x = .ok a := by
  cases x with
  | error fault => simp [Except.toOption]
  | ok b => simp [Except.toOption]

/-! ## Success or failure alone -/

/-- An outcome without its value. -/
def verdict (outcome : Except ε α) : Except ε Unit :=
  outcome.map fun _ => ()

theorem verdict_eq_ok_iff {x : Except ε α} : verdict x = .ok () ↔ ∃ a, x = .ok a := by
  cases x with
  | error fault => simp [verdict, Except.map]
  | ok a => simp [verdict, Except.map]

theorem verdict_eq_error_iff {x : Except ε α} {fault : ε} :
    verdict x = .error fault ↔ x = .error fault := by
  cases x with
  | error fault' => simp [verdict, Except.map]
  | ok a => simp [verdict, Except.map]

theorem verdict_bind {x : Except ε α} {f : α → Except ε β} {last : Except ε Unit}
    (h : ∀ a, verdict (f a) = last) : verdict (x >>= f) = verdict x >>= fun _ => last := by
  cases x with
  | error fault => rfl
  | ok a => exact h a

theorem verdict_bind_of_ok {x : Except ε α} {f : α → Except ε β} (h : ∀ a, ∃ b, f a = .ok b) :
    verdict (x >>= f) = verdict x := by
  cases x with
  | error fault => rfl
  | ok a => exact verdict_eq_ok_iff.mpr (h a)

/-! ## Computations next to a state -/

/-- A computation that fails is the last one, and the state that it leaves stays. -/
theorem run_bind_stateM {σ : Type} (x : ExceptT ε (StateM σ) α) (f : α → ExceptT ε (StateM σ) β)
    (s : σ) :
    (x >>= f).run s =
      match x.run s with
      | (.ok a, t) => (f a).run t
      | (.error fault, t) => (.error fault, t) := by
  rw [ExceptT.run_bind]
  simp only [bind, StateT.bind]
  rcases x.run s with ⟨fault | a, t⟩
  · rfl
  · rfl

/-! ## Checks of a list -/

variable {check : α → Except ε Unit} {xs : List α}

theorem forM_eq_ok_iff : forM xs check = .ok () ↔ ∀ x ∈ xs, check x = .ok () := by
  induction xs with
  | nil => simp [pure, Except.pure]
  | cons x xs ih =>
      rw [List.forM_cons, bind_eq_ok_iff, List.forall_mem_cons, ← ih]
      exact ⟨fun ⟨_, hx, hxs⟩ => ⟨hx, hxs⟩, fun ⟨hx, hxs⟩ => ⟨(), hx, hxs⟩⟩

/-- Checks fail as the first member that does not pass. -/
theorem forM_eq_error_iff {fault : ε} :
    forM xs check = .error fault ↔
      ∃ before x after, xs = before ++ x :: after ∧ (∀ y ∈ before, check y = .ok ()) ∧
        check x = .error fault := by
  induction xs with
  | nil => simp [pure, Except.pure]
  | cons x xs ih =>
      rw [List.forM_cons, bind_eq_error_iff]
      constructor
      · rintro (hx | ⟨⟨⟩, hx, hxs⟩)
        · exact ⟨[], x, xs, rfl, by simp, hx⟩
        · obtain ⟨before, y, after, rfl, hbefore, hy⟩ := ih.mp hxs
          exact ⟨x :: before, y, after, rfl, List.forall_mem_cons.mpr ⟨hx, hbefore⟩, hy⟩
      · rintro ⟨before, y, after, hsplit, hbefore, hy⟩
        cases before with
        | nil =>
            obtain ⟨rfl, rfl⟩ := List.cons.inj hsplit
            exact .inl hy
        | cons z before =>
            obtain ⟨rfl, rfl⟩ := List.cons.inj hsplit
            obtain ⟨hx, hbefore⟩ := List.forall_mem_cons.mp hbefore
            exact .inr ⟨(), hx, ih.mpr ⟨before, y, after, rfl, hbefore, hy⟩⟩

end DefiniteIntegral

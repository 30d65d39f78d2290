import EntityMapper.Session.Basic

/-!
# Running effects

What an effect gives on a state, part by part. A sequence is what its first part
leaves, given to the second; if the first part fails the second is not run, and
what the first did stays done. The value held beside the state is untouched by
an effect on the backend alone.
-/

namespace EntityMapper

namespace Effect

variable {ρ σ α β : Type} {x : Effect σ α} {f : α → Effect σ β} {state next : σ}
  {a : α} {e : MappingError}

/-! ## Sequences -/

@[simp]
theorem pure_apply (a : α) (state : σ) :
    (pure a : Effect σ α) state = (.ok a, state) := rfl

@[simp]
theorem throw_apply (e : MappingError) (state : σ) :
    (throw e : Effect σ α) state = (.error e, state) := rfl

theorem bind_apply (x : Effect σ α) (f : α → Effect σ β) (state : σ) :
    (x >>= f) state = match x state with
      | (.ok a, next) => f a next
      | (.error e, next) => (.error e, next) := by
  change ExceptT.bindCont f (x state).1 (x state).2 = _
  obtain ⟨_ | _, _⟩ := x state <;> rfl

theorem bind_ok (h : x state = (.ok a, next)) : (x >>= f) state = f a next := by
  rw [bind_apply, h]

theorem bind_error (h : x state = (.error e, next)) :
    (x >>= f) state = (.error e, next) := by
  rw [bind_apply, h]

/-- A sequence succeeds iff its first part does and then its second. -/
theorem bind_eq_ok {b : β} {after : σ} : (x >>= f) state = (.ok b, after) ↔
    ∃ a next, x state = (.ok a, next) ∧ f a next = (.ok b, after) := by
  constructor
  · intro h
    rcases hx : x state with ⟨_ | a, next⟩
    · cases (bind_error hx).symm.trans h
    · exact ⟨a, next, rfl, (bind_ok hx).symm.trans h⟩
  · rintro ⟨a, next, hx, hf⟩
    exact (bind_ok hx).trans hf

@[simp]
theorem map_apply (f : α → β) (x : Effect σ α) (state : σ) :
    (f <$> x) state = ((x state).1.map f, (x state).2) := by
  change (x >>= fun a => pure (f a)) state = _
  rw [bind_apply]
  obtain ⟨_ | _, _⟩ := x state <;> rfl

@[simp]
theorem discard_apply (x : Effect σ α) (state : σ) :
    (discard x : Effect σ PUnit) state =
      ((x state).1.map fun _ => (), (x state).2) :=
  map_apply (fun _ => ()) x state

theorem discard_ok (h : x state = (.ok a, next)) :
    (discard x : Effect σ PUnit) state = (.ok (), next) := by
  rw [discard_apply, h]
  rfl

/-! ## Held values -/

@[simp]
theorem held_apply (value : ρ) (state : σ) :
    (held : EffectOn ρ σ ρ) (value, state) = (.ok value, value, state) := rfl

@[simp]
theorem hold_apply (value old : ρ) (state : σ) :
    hold value (old, state) = (.ok (), value, state) := rfl

@[simp]
theorem change_apply (f : ρ → ρ) (value : ρ) (state : σ) :
    change f (value, state) = (.ok (), f value, state) := rfl

@[simp]
theorem alongside_apply (x : Effect σ α) (value : ρ) (state : σ) :
    x.alongside (value, state) = ((x state).1, value, (x state).2) := rfl

@[simp]
theorem orThrow_apply (result : Except MappingError α) (state : σ) :
    orThrow result state = (result, state) := rfl

theorem pure_eq_ok {b : α} :
    (pure a : Effect σ α) state = (.ok b, next) ↔ a = b ∧ state = next := by
  rw [pure_apply, Prod.mk.injEq, Except.ok.injEq]

theorem orThrow_eq_ok {result : Except MappingError α} :
    orThrow result state = (.ok a, next) ↔ result = .ok a ∧ state = next := by
  rw [orThrow_apply, Prod.mk.injEq]

theorem compiled_eq_ok {result : Except CompileError α} : compiled result = .ok a ↔
    result = .ok a := by
  cases result with
  | error e =>
    have hfailed : compiled (.error e : Except CompileError α) =
        .error (.compile e) := rfl
    simp [hfailed]
  | ok b =>
    have hgiven : compiled (.ok b : Except CompileError α) = .ok b := rfl
    simp [hgiven]

/-- A compiled command is given on. -/
theorem bind_compiled {result : Except CompileError α} (h : result = .ok a)
    (f : α → Effect σ β) (state : σ) :
    (orThrow (compiled result) >>= f) state = f a state := by
  rw [h]
  exact bind_ok rfl

@[simp]
theorem holding_apply (value : ρ) (x : EffectOn ρ σ α) (state : σ) :
    holding value x state = (.ok ((x (value, state)).1, (x (value, state)).2.1),
      (x (value, state)).2.2) := rfl

end Effect

end EntityMapper

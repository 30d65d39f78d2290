import EntityMapper.Model.Error

/-!
# Effects

An effect runs on the state of a backend and gives a value or fails. What it did
to the state before it failed stays done. An effect may hold a value beside the
state, such as a record that is being saved; what it did to that value before it
failed stays done as well.
-/

namespace EntityMapper

/-- An effect on the state of a backend, which gives a value or fails. -/
abbrev Effect (σ α : Type) := ExceptT MappingError (StateM σ) α

/-- An effect on the state of a backend and on a value held beside it. -/
abbrev EffectOn (ρ σ α : Type) := Effect (ρ × σ) α

namespace Effect

variable {ρ σ α : Type}

/-- An effect on the backend alone leaves the held value as it is. -/
def alongside (effect : Effect σ α) : EffectOn ρ σ α := fun (held, state) =>
  let (outcome, state) := effect state
  (outcome, (held, state))

/-- Hold a value for the length of an effect. The effect may fail; what it held
at the end is given back either way. -/
def holding (value : ρ) (effect : EffectOn ρ σ α) :
    Effect σ (Except MappingError α × ρ) :=
  fun state =>
    let (outcome, held, state) := effect (value, state)
    (.ok (outcome, held), state)

/-- The held value. -/
def held : EffectOn ρ σ ρ := fun (held, state) => (.ok held, (held, state))

/-- Hold another value. -/
def hold (value : ρ) : EffectOn ρ σ Unit :=
  fun (_, state) => (.ok (), (value, state))

/-- Change the held value. -/
def change (f : ρ → ρ) : EffectOn ρ σ Unit :=
  fun (held, state) => (.ok (), (f held, state))

/-- The value of a result, or its error as the error of an effect. -/
def orThrow (result : Except MappingError α) : Effect σ α :=
  fun state => (result, state)

end Effect

/-- A compiled command, or the failure of its compilation. -/
def compiled {α : Type} (result : Except CompileError α) : Except MappingError α :=
  result.mapError .compile

end EntityMapper

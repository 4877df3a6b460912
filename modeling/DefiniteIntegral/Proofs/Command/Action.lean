import DefiniteIntegral.Command.Action
import DefiniteIntegral.Proofs.Outcome

/-! # Runs of actions

What an action gives on a workplace, and the workplace that it leaves. -/

namespace DefiniteIntegral.Action

variable {α β : Type} {config : Config} {place : Workplace}

@[simp] theorem run_settle (outcome : Except (Error Float) α) :
    (settle outcome).run place = (outcome, place) := rfl

@[simp] theorem run_get : (get : Action Workplace).run place = (.ok place, place) := rfl

@[simp] theorem run_set (later : Workplace) :
    (set later : Action Unit).run place = (.ok (), later) := rfl

/-- An action that fails is the last one, and what it has left stays. -/
theorem run_bind (first : Action α) (next : α → Action β) :
    (first >>= next).run place =
      match first.run place with
      | (.ok a, place) => (next a).run place
      | (.error e, place) => (.error e, place) := by
  rw [run_bind_stateM]
  rcases first.run place with ⟨e | a, later⟩
  · rfl
  · rfl

theorem run_saveConfig :
    (saveConfig config).run place =
      match place.store.save config with
      | .ok store => (.ok (), { place with store })
      | .error fault => (.error (.config fault), place) := by
  rw [saveConfig, run_bind, run_get]
  simp only [run_bind, run_settle, run_set]
  cases place.store.save config <;> rfl

theorem run_loadConfig :
    loadConfig.run place =
      match place.store.load with
      | .ok (config, store) => (.ok config, { place with store })
      | .error fault => (.error (.config fault), place) := by
  rw [loadConfig, run_bind, run_get]
  simp only [run_bind, run_settle, run_set]
  cases place.store.load <;> rfl

theorem run_writeFile (path text : String) :
    (writeFile path text).run place =
      match place.folder.write path text with
      | .ok folder => (.ok (), { place with folder })
      | .error fault => (.error (.io fault), place) := by
  rw [writeFile, run_bind, run_get]
  simp only [run_bind, run_settle, run_set]
  cases place.folder.write path text <;> rfl

end DefiniteIntegral.Action

import Interlock.Script.Ranked

/-!
# Ranks of registries

A table of ranks is valid if entries are below the directory and the directory can be taken at all. Registries are
made from valid tables only, whichever way they are made, and a document that can be read holds one.
-/

namespace Interlock

namespace RegistryRanks

def Valid (ranks : RegistryRanks) : Prop := ranks.entry < ranks.directory ∧ ranks.directory ≠ Rank.unbounded

instance (ranks : RegistryRanks) : Decidable ranks.Valid :=
  inferInstanceAs (Decidable (ranks.entry < ranks.directory ∧ ranks.directory ≠ Rank.unbounded))

/-- What is wrong with a table that is not valid. -/
def fault (ranks : RegistryRanks) : ConfigFault :=
  if ranks.directory = Rank.unbounded ∨ ranks.entry = Rank.unbounded then .reservedRank
  else .ranksInverted ranks.directory ranks.entry

/-- A rank is a word, so an entry below the directory has not the rank of the empty ceiling. -/
theorem validate_eq {ranks : RegistryRanks} (hw : ranks.directory ≤ Word.max) :
    ranks.validate = if ranks.Valid then .ok () else .error ranks.fault := by
  by_cases hv : ranks.Valid
  · have ⟨hlt, hne⟩ := hv
    have hwords : ¬ (ranks.directory = Rank.unbounded ∨ ranks.entry = Rank.unbounded) := by
      rintro (he | he)
      · exact hne he
      · rw [he] at hlt
        exact Nat.not_lt_of_le hw hlt
    rw [if_pos hv, validate, if_neg hwords, if_neg (Nat.not_le_of_lt hlt)]
  · rw [if_neg hv, validate, fault]
    split
    · rfl
    · rename_i hwords
      rw [if_pos (Nat.le_of_not_lt fun hlt => hv ⟨hlt, fun he => hwords (.inl he)⟩)]

theorem valid_default : ({} : RegistryRanks).Valid := by decide

end RegistryRanks

theorem Config.validate_of_parse {text : String} {c : Config} (hp : Config.parse text = .ok c) :
    c.ranks.validate = .ok () := by
  unfold Config.parse at hp
  split at hp
  · cases hp
  · split at hp
    · rename_i hv
      cases hp
      unfold Config.validate at hv
      split at hv
      · assumption
      · cases hv
    · cases hp

/-- A table that passes the check is valid, whether of words or not. -/
theorem RegistryRanks.valid_of_validate {ranks : RegistryRanks} (hv : ranks.validate = .ok ()) : ranks.Valid := by
  unfold RegistryRanks.validate at hv
  split at hv
  · cases hv
  · rename_i hwords
    split at hv
    · cases hv
    · rename_i hlt
      exact ⟨Nat.lt_of_not_le hlt, fun he => hwords (.inl he)⟩

namespace Script

/-- What is done when the ranks are valid: a registry is made and gets its name. -/
def buildRegistry (target : String) (ranks : RegistryRanks) : Scene.Act Result := do
  Scene.create .registry target (·.addRegistry ranks.directory ranks.entry)
  pure .ok

theorem makeRegistry_eq (target : String) {ranks : RegistryRanks} (hw : ranks.directory ≤ Word.max) :
    makeRegistry target ranks = if ranks.Valid then buildRegistry target ranks
      else pure (.fault (.invalidConfig ranks.fault)) := by
  unfold makeRegistry
  rw [RegistryRanks.validate_eq hw]
  by_cases hv : ranks.Valid
  · simp only [if_pos hv, buildRegistry]
  · simp only [if_neg hv]

/-- What is done with a table of ranks: a registry is made of a valid one. -/
def makeIfValid (target : String) (ranks : RegistryRanks) : Scene.Act Result :=
  if ranks.Valid then buildRegistry target ranks else pure (.fault (.invalidConfig ranks.fault))

/-- Making a registry always comes to its end, and adds one to the locks of the world. -/
theorem buildRegistry_steps (target : String) (ranks : RegistryRanks) (s : Scene) :
    ∃ s₁ s₂ k, (buildRegistry target ranks).step? s = some (s₁, k) ∧ k.step? s₁ = some (s₂, .done .ok) ∧
      s₂.world.hierarchy = (s.world.hierarchy.addRegistry ranks.directory ranks.entry).1 := ⟨_, _, _, rfl, rfl, rfl⟩

/-- In each of the ways to make a registry one is made exactly of valid ranks. -/
structure MakesValid : Prop where
  withRanks : ∀ t target ranks, ranks.directory ≤ Word.max →
    RegistryStep.run t (.withRanks target ranks) = makeIfValid target ranks
  fromConfig : ∀ t target source c, source.read = .ok c → c.ranks.directory ≤ Word.max →
    RegistryStep.run t (.fromConfig target source) = makeIfValid target c.ranks
  parsed : ∀ text c, Config.parse text = .ok c → c.ranks.Valid
  default : ({} : RegistryRanks).Valid ∧ ∀ t target, RegistryStep.run t (.new target) = buildRegistry target {}
  built : ∀ target ranks s, ∃ s₁ s₂ k, (buildRegistry target ranks).step? s = some (s₁, k) ∧
    k.step? s₁ = some (s₂, .done .ok) ∧
      s₂.world.hierarchy = (s.world.hierarchy.addRegistry ranks.directory ranks.entry).1

theorem makesValid : MakesValid where
  withRanks _ target _ hw := makeRegistry_eq target hw
  fromConfig t target source c hread hw := by
    simp only [RegistryStep.run, hread]
    exact makeRegistry_eq target hw
  parsed _ _ hp := RegistryRanks.valid_of_validate (Config.validate_of_parse hp)
  default := ⟨RegistryRanks.valid_default, fun _ _ => rfl⟩
  built := buildRegistry_steps

end Script

end Interlock

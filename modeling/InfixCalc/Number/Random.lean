import InfixCalc.Binary64.Fields

/-!
# Random numbers

A source of numbers from 0 to below 1 that lives in the state of an evaluation.
-/

namespace InfixCalc.Number

/-- States from which a random number can be drawn. -/
class RandomSource (σ : Type) where
  draw : σ → Float × σ

structure Seed where
  value : UInt64
  deriving Repr

def Seed.initial : Seed := ⟨0x9e3779b97f4a7c15⟩

def Seed.next (seed : Seed) : Float × Seed :=
  let value := seed.value * 6364136223846793005 + 1442695040888963407
  (Binary64.ofRatio false (value.toNat >>> 11) (Nat.pow 2 53), ⟨value⟩)

instance : RandomSource Seed := ⟨Seed.next⟩

end InfixCalc.Number

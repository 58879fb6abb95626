import FrameChain.Random
import Mathlib.Logic.Function.Basic

set_option autoImplicit false

/-! The constant that spreads the number over the word is odd, so it has an inverse modulo `2⁶⁴`, and
mixing in the master seed is undone by mixing it in again. -/
namespace FrameChain
namespace RandomStream

def entitySeed (master : UInt64) (entity : EntityId) : UInt64 :=
  seed master (UInt64.ofNat entity.val)

/-- The number whose stream has the seed `s`: the factor inverts the spreading constant. -/
def numberOf (master s : UInt64) : UInt64 := (master ^^^ s) * 0xf1de83e19937733d

theorem spread_gather : (0x9e3779b97f4a7c15 * 0xf1de83e19937733d : UInt64) = 1 := by decide

theorem mix_mix (master x : UInt64) : master ^^^ (master ^^^ x) = x := by
  rw [← UInt64.xor_assoc, UInt64.xor_self, UInt64.zero_xor]

theorem numberOf_seed (master : UInt64) : Function.LeftInverse (numberOf master) (seed master) := by
  intro number
  rw [numberOf, seed, mix_mix, UInt64.mul_assoc, spread_gather, UInt64.mul_one]

theorem seed_numberOf (master : UInt64) : Function.RightInverse (numberOf master) (seed master) := by
  intro s
  rw [numberOf, seed, UInt64.mul_assoc, UInt64.mul_comm 0xf1de83e19937733d, spread_gather,
    UInt64.mul_one, mix_mix]

theorem seed_bijective (master : UInt64) : Function.Bijective (seed master) :=
  Function.bijective_iff_has_inverse.2
    ⟨numberOf master, numberOf_seed master, seed_numberOf master⟩

theorem seed_involutive (number : UInt64) : Function.Involutive (seed · number) := by
  intro master
  change master ^^^ _ ^^^ _ = master
  rw [UInt64.xor_assoc, UInt64.xor_self, UInt64.xor_zero]

theorem entitySeed_inj (master : UInt64) {a b : EntityId} (ha : a.val < UInt64.size)
    (hb : b.val < UInt64.size) (h : entitySeed master a = entitySeed master b) : a = b := by
  have words : UInt64.ofNat a.val = UInt64.ofNat b.val := (seed_bijective master).injective h
  have vals : a.val = b.val := by
    rw [← UInt64.toNat_ofNat_of_lt' ha, words, UInt64.toNat_ofNat_of_lt' hb]
  cases a
  cases b
  exact congrArg EntityId.mk vals

/-- Under one master seed every word is the seed of exactly one number, so two entities of a bank
always start from different seeds; and an entity has a seed of its own under each master seed. -/
theorem streams_apart (master : UInt64) :
    Function.Bijective (seed master) ∧
    (∀ entity, (ofEntity master entity).state = initialState (entitySeed master entity)) ∧
    (∀ a b : EntityId, a.val < UInt64.size → b.val < UInt64.size → a ≠ b →
      entitySeed master a ≠ entitySeed master b) ∧
    ∀ entity other, other ≠ master → entitySeed other entity ≠ entitySeed master entity := by
  refine ⟨seed_bijective master, fun _ => rfl, ?_, ?_⟩
  · intro a b ha hb apart same
    exact apart (entitySeed_inj master ha hb same)
  · intro entity other differ same
    exact differ ((seed_involutive _).injective same)

/-- Entities half the word apart, which any even constant would confuse. -/
theorem streams_apart_half :
    (⟨1⟩ : EntityId) ≠ ⟨UInt64.size / 2 + 1⟩ ∧ entitySeed 42 ⟨1⟩ ≠ entitySeed 42 ⟨UInt64.size / 2 + 1⟩ ∧
    entitySeed 43 ⟨1⟩ ≠ entitySeed 42 ⟨1⟩ :=
  have ⟨_, _, entities, masters⟩ := streams_apart 42
  ⟨by decide, entities ⟨1⟩ ⟨UInt64.size / 2 + 1⟩ (by decide) (by decide) (by decide),
    masters ⟨1⟩ 43 (by decide)⟩

end RandomStream
end FrameChain

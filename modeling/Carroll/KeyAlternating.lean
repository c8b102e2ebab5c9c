import Mathlib.Logic.Equiv.Defs

/-! # Key-alternating ciphers

A block cipher whose rounds substitute, mix and add a round key; the last round does not mix.
Adding a key is an involution and mixing is linear for it.  The inverse of such a cipher has the
same shape (`RoundMaps.inverse`): the round keys come in the opposite order, and mixing backwards
has been applied to all of them but the two outer ones (`encrypt_inverse_encrypt`). -/

namespace Carroll

/-- The maps of one round over the states `S`. -/
structure RoundMaps (S : Type*) where
  /-- Add a round key. -/
  addKey : S → S → S
  /-- Substitute. -/
  sub : Equiv.Perm S
  /-- Mix. -/
  mix : Equiv.Perm S
  addKey_addKey : ∀ x k, addKey (addKey x k) k = x
  mix_addKey : ∀ x k, mix (addKey x k) = addKey (mix x) (mix k)

namespace RoundMaps

variable {S : Type*} (R : RoundMaps S)

/-- One inner round under the key `k`. -/
def round (x k : S) : S := R.addKey (R.mix (R.sub x)) k

/-- The inner rounds, one for each of the keys. -/
def rounds (ks : List S) (x : S) : S := ks.foldl R.round x

/-- The cipher with the outer keys `first` and `last` and the inner keys `ks`. -/
def encrypt (first : S) (ks : List S) (last x : S) : S :=
  R.addKey (R.sub (R.rounds ks (R.addKey x first))) last

@[simp] theorem rounds_nil (x : S) : R.rounds [] x = x := rfl

@[simp] theorem rounds_cons (k : S) (ks : List S) (x : S) :
    R.rounds (k :: ks) x = R.rounds ks (R.round x k) := rfl

theorem rounds_append (ks ks' : List S) (x : S) :
    R.rounds (ks ++ ks') x = R.rounds ks' (R.rounds ks x) := by
  induction ks generalizing x with
  | nil => rfl
  | cons k ks ih => exact ih (R.round x k)

theorem mix_symm_addKey (x k : S) :
    R.mix.symm (R.addKey x k) = R.addKey (R.mix.symm x) (R.mix.symm k) := by
  apply R.mix.injective
  rw [R.mix_addKey, Equiv.apply_symm_apply, Equiv.apply_symm_apply, Equiv.apply_symm_apply]

/-- The maps of the inverse rounds. -/
def inverse : RoundMaps S where
  addKey := R.addKey
  sub := R.sub.symm
  mix := R.mix.symm
  addKey_addKey := R.addKey_addKey
  mix_addKey := R.mix_symm_addKey

@[simp] theorem inverse_inverse : R.inverse.inverse = R := rfl

/-- The inner keys of the inverse cipher. -/
def inverseKeys (ks : List S) : List S := (ks.map R.mix.symm).reverse

theorem inverseKeys_cons (k : S) (ks : List S) :
    R.inverseKeys (k :: ks) = R.inverseKeys ks ++ [R.mix.symm k] := by
  simp [inverseKeys]

theorem inverseKeys_inverseKeys (ks : List S) : R.inverse.inverseKeys (R.inverseKeys ks) = ks := by
  have hid : (R.inverse.mix.symm ∘ R.mix.symm : S → S) = id := by
    funext x
    exact R.mix.apply_symm_apply x
  rw [inverseKeys, inverseKeys, List.map_reverse, List.reverse_reverse, List.map_map, hid,
    List.map_id]

/-- An inverse round takes a substituted state back over one round. -/
theorem inverse_round_sub_round (x k : S) :
    R.inverse.round (R.sub (R.round x k)) (R.mix.symm k) = R.sub x := by
  have hmix : R.mix.symm (R.round x k) = R.addKey (R.sub x) (R.mix.symm k) := by
    rw [round, mix_symm_addKey, Equiv.symm_apply_apply]
  change R.addKey (R.mix.symm (R.sub.symm (R.sub (R.round x k)))) (R.mix.symm k) = R.sub x
  rw [Equiv.symm_apply_apply, hmix, R.addKey_addKey]

/-- The inverse rounds take a substituted state back over all rounds. -/
theorem inverse_rounds_sub_rounds (ks : List S) (x : S) :
    R.inverse.rounds (R.inverseKeys ks) (R.sub (R.rounds ks x)) = R.sub x := by
  induction ks generalizing x with
  | nil => rfl
  | cons k ks ih =>
      rw [inverseKeys_cons, rounds_append, rounds_cons R k ks, ih (R.round x k)]
      exact R.inverse_round_sub_round x k

/-- The inverse cipher takes the result of the cipher back. -/
theorem encrypt_inverse_encrypt (first : S) (ks : List S) (last x : S) :
    R.inverse.encrypt last (R.inverseKeys ks) first (R.encrypt first ks last x) = x := by
  have hlast : R.inverse.addKey (R.encrypt first ks last x) last =
      R.sub (R.rounds ks (R.addKey x first)) := R.addKey_addKey _ last
  rw [encrypt, hlast, inverse_rounds_sub_rounds]
  change R.addKey (R.sub.symm (R.sub (R.addKey x first))) first = x
  rw [Equiv.symm_apply_apply, R.addKey_addKey]

/-- The cipher takes the result of the inverse cipher back. -/
theorem encrypt_encrypt_inverse (first : S) (ks : List S) (last x : S) :
    R.encrypt first ks last (R.inverse.encrypt last (R.inverseKeys ks) first x) = x := by
  have h := R.inverse.encrypt_inverse_encrypt last (R.inverseKeys ks) first x
  rwa [inverseKeys_inverseKeys] at h

end RoundMaps

end Carroll

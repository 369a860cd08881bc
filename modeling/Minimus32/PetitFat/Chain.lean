import Mathlib.Algebra.Order.Ring.Nat
import Minimus32.PetitFat.Table

namespace Minimus32.PetitFat

def Volume.sectorsOf (v : Volume) (clusters : List Nat) : List Nat :=
  clusters.flatMap fun c => (List.range v.csize).map fun k => v.database + (c - 2) * v.csize + k

def Volume.bytesOf (v : Volume) (medium : Medium) (clusters : List Nat) : List UInt8 :=
  (v.sectorsOf clusters).flatMap medium.bytes

/-- Clusters of the volume in the order in which its FAT links them. -/
structure Volume.Chain (v : Volume) (entries clusters : List Nat) : Prop where
  valid : ∀ c ∈ clusters, 2 ≤ c ∧ c < v.nFatent
  linked : ∀ i c next, clusters[i]? = some c → clusters[i + 1]? = some next → entries[c]? = some next

variable {medium : Medium} {v : Volume} {entries clusters : List Nat}

theorem Volume.getElem?_sectorsOf {k c : Nat} (here : clusters[k / v.csize]? = some c) :
    (v.sectorsOf clusters)[k]? = some (v.database + (c - 2) * v.csize + k % v.csize) := by
  have inside := Nat.mod_lt k v.csize_pos
  have even : ∀ c ∈ clusters,
      ((List.range v.csize).map fun k => v.database + (c - 2) * v.csize + k).length = v.csize := by simp
  have place := RowMajor.getElem?_flatMap even (k / v.csize) inside
  rw [Nat.div_add_mod, here] at place
  rw [sectorsOf, place]
  simp [inside]

theorem Volume.Chain.area_of_mem {sector : Nat} (chain : v.Chain entries clusters)
    (formatted : v.Formatted medium entries) (member : sector ∈ v.sectorsOf clusters) : v.area sector := by
  obtain ⟨c, inside, k, small, rfl⟩ : ∃ c ∈ clusters, ∃ k < v.csize, v.database + (c - 2) * v.csize + k = sector := by
    simpa [sectorsOf] using member
  have bounds := chain.valid c inside
  have last : (c - 2 + 1) * v.csize ≤ (v.nFatent - 2) * v.csize := Nat.mul_le_mul_right _ (by omega)
  have fat := formatted.fat_room
  have root := formatted.root_room
  rw [Nat.add_mul, Nat.one_mul] at last
  constructor <;> omega

theorem Volume.length_sectorsOf (v : Volume) (clusters : List Nat) :
    (v.sectorsOf clusters).length = v.csize * clusters.length := by
  have even : ∀ c ∈ clusters,
      ((List.range v.csize).map fun k => v.database + (c - 2) * v.csize + k).length = v.csize := by simp
  rw [sectorsOf, RowMajor.length_flatMap even]

theorem Volume.length_bytesOf (v : Volume) (medium : Medium) (clusters : List Nat) :
    (v.bytesOf medium clusters).length = 512 * (v.csize * clusters.length) := by
  rw [bytesOf, RowMajor.length_flatMap (fun sector _ => medium.length_bytes sector), v.length_sectorsOf]

/-- The next sector but at the end of a cluster. -/
theorem Volume.succ_div_csize (v : Volume) {k : Nat} (inner : (k + 1) % v.csize ≠ 0) :
    (k + 1) / v.csize = k / v.csize ∧ (k + 1) % v.csize = k % v.csize + 1 := by
  have still : (k + 1) / v.csize = k / v.csize := by
    rw [Nat.succ_div, if_neg]
    · rfl
    · intro divides
      exact inner (Nat.mod_eq_zero_of_dvd divides)
  have before := Nat.div_add_mod k v.csize
  have after := Nat.div_add_mod (k + 1) v.csize
  rw [still] at after
  exact ⟨still, by omega⟩

theorem Volume.Formatted.land_csize (formatted : v.Formatted medium entries) (k : Nat) :
    k &&& (v.csize - 1) = k % v.csize := by
  obtain ⟨n, power⟩ := formatted.power
  rw [power, Nat.and_two_pow_sub_one_eq_mod]

end Minimus32.PetitFat

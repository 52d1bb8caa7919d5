/-!
# Integer intervals

The integers between two bounds, both included, as an increasing list.
-/

namespace OrderEncoding
namespace Interval

/-- The integers from `lower` to `upper` in increasing order. -/
def values (lower upper : Int) : List Int :=
  (List.range (upper - lower + 1).toNat).map fun offset : Nat => lower + offset

@[simp] theorem mem_values
    {lower upper value : Int} :
    value ∈ values lower upper ↔ lower ≤ value ∧ value ≤ upper := by
  simp only [values, List.mem_map, List.mem_range]
  constructor
  · rintro ⟨offset, small, rfl⟩
    omega
  · intro bounds
    exact ⟨(value - lower).toNat, by omega, by omega⟩

theorem pairwise_values
    (lower upper : Int) :
    (values lower upper).Pairwise (· < ·) := by
  rw [values, List.pairwise_map]
  exact List.pairwise_lt_range.imp fun below => by omega

theorem length_values
    (lower upper : Int) :
    (values lower upper).length = (upper - lower + 1).toNat := by
  simp [values]

end Interval
end OrderEncoding

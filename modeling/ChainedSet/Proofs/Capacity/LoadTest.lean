import ChainedSet.Proofs.Capacity.Load

/-!
# The load test

What the test that decides on growth, and on the acceptance of a layout, tells of a size and a
capacity. Size and capacity are rounded to doubles, their quotient is rounded once more, and the
result is compared with the double nearest to 7/10 (`IsRoundedLoad` and `overloads_iff_of_rounded`:
there is one outcome, whatever doubles are taken for the rounded numbers).

`overloads_exact` says that nothing is lost on the way: up to `2 ^ 53` elements the outcome is that
of the integers, and beyond, where sizes are no longer exact, more elements still never make a table
less loaded.
-/

namespace ChainedSet.Capacity

open Binary64

/-- `load` is what the load factor is rounded to: size and capacity are rounded to doubles, and then
their quotient is. -/
def IsRoundedLoad (size capacity : Nat) (load : Binary64) : Prop :=
  ∃ n c : Binary64, IsRounding size n ∧ IsRounding capacity c ∧ IsRounding (n.value / c.value) load

theorem isRounding_loadThreshold : IsRounding (7 / 10) loadThreshold := by
  have h : IsRounding ((7 : Nat) / (10 : Nat)) loadThreshold := isRounding_ofQuotient 7 (by decide)
  exact_mod_cast h

/-- The load factor that is computed is a rounded one. -/
theorem isRoundedLoad_loadFactor (size : Nat) {capacity : Nat} (h : Regular capacity) :
    IsRoundedLoad size capacity (loadFactor size capacity) :=
  ⟨ofNat size, ofNat capacity, isRounding_ofNat size, isRounding_ofNat capacity,
    isRounding_div _ (mantissa_ofNat_ne_zero h)⟩

/-- **More elements in as many buckets are not a smaller load.** -/
theorem IsRoundedLoad.value_le {size larger capacity : Nat} {load higher : Binary64}
    (h : IsRoundedLoad size capacity load) (h' : IsRoundedLoad larger capacity higher)
    (hle : size ≤ larger) : load.value ≤ higher.value := by
  obtain ⟨n, c, hn, hc, hload⟩ := h
  obtain ⟨n', c', hn', hc', hhigher⟩ := h'
  have hsize : n.value ≤ n'.value := hn.value_le hn' (by exact_mod_cast hle)
  rw [← hc.value_unique hc'] at hhigher
  exact hload.value_le hhigher (div_le_div_of_nonneg_right hsize c.value_nonneg)

/-- **The load test compares rounded numbers**, whichever doubles stand for them. -/
theorem overloads_iff_of_rounded {size capacity : Nat} {load threshold : Binary64}
    (hcap : Regular capacity) (hload : IsRoundedLoad size capacity load)
    (hthreshold : IsRounding (7 / 10) threshold) :
    overloads size capacity = true ↔ threshold.value < load.value := by
  have hcomputed := isRoundedLoad_loadFactor size hcap
  rw [overloads, lt_iff_value_lt, isRounding_loadThreshold.value_unique hthreshold,
    le_antisymm (hcomputed.value_le hload le_rfl) (hload.value_le hcomputed le_rfl)]

theorem overloads_mono {size larger capacity : Nat} (hcap : Regular capacity)
    (hle : size ≤ larger) (h : overloads size capacity = true) :
    overloads larger capacity = true := by
  rw [overloads, lt_iff_value_lt] at h ⊢
  exact lt_of_lt_of_le h
    ((isRoundedLoad_loadFactor size hcap).value_le (isRoundedLoad_loadFactor larger hcap) hle)

/-- **The load test is exact, and monotone in the size.** Whichever doubles are the rounded size,
capacity, quotient and threshold, the test compares the last two. Up to `2 ^ 53` elements it finds a
table overloaded exactly if there are more than seven elements for every ten buckets; and a table
that is overloaded stays so with more elements, however many. -/
theorem overloads_exact {capacity : Nat} (hcap : Regular capacity) :
    (∀ size load threshold, IsRoundedLoad size capacity load → IsRounding (7 / 10) threshold →
      (overloads size capacity = true ↔ threshold.value < load.value)) ∧
    (∀ size, size ≤ 2 ^ 53 → (overloads size capacity = true ↔ 7 * capacity < 10 * size)) ∧
    ∀ size larger, size ≤ larger → overloads size capacity = true →
      overloads larger capacity = true :=
  ⟨fun _ _ _ hload hthreshold => overloads_iff_of_rounded hcap hload hthreshold,
    fun _ hsize => overloads_iff hcap hsize, fun _ _ hle => overloads_mono hcap hle⟩

/-- With `2 ^ 52` buckets, the last size that is not too much, the first one that is, and the
largest size of all, which is no double itself. -/
theorem overloads_exact_vast :
    Regular (2 ^ 52) ∧
      IsRoundedLoad 3152519739159347 (2 ^ 52) (loadFactor 3152519739159347 (2 ^ 52)) ∧
      IsRounding (7 / 10) loadThreshold ∧
      ¬loadThreshold.value < (loadFactor 3152519739159347 (2 ^ 52)).value ∧
      overloads 3152519739159347 (2 ^ 52) = false ∧ overloads 3152519739159348 (2 ^ 52) = true ∧
      overloads (2 ^ 64 - 1) (2 ^ 52) = true := by
  have hcap : Regular (2 ^ 52) := ⟨47, by decide⟩
  have hload := isRoundedLoad_loadFactor 3152519739159347 hcap
  obtain ⟨hrounded, hexact, hmono⟩ := overloads_exact hcap
  have hlast : ¬overloads 3152519739159347 (2 ^ 52) = true := by
    rw [hexact _ (by decide)]
    decide
  have hfirst : overloads 3152519739159348 (2 ^ 52) = true :=
    (hexact _ (by decide)).mpr (by decide)
  refine ⟨hcap, hload, isRounding_loadThreshold, ?_, Bool.eq_false_iff.mpr hlast, hfirst,
    hmono _ _ (by decide) hfirst⟩
  rwa [← hrounded _ _ _ hload isRounding_loadThreshold]

end ChainedSet.Capacity

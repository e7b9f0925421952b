namespace SchemaLang.Text

/-- Whether one of the spans `(lo, hi)` holds `n`, ends included. The spans are in increasing
order, so the first one that does not lie below `n` decides. -/
def covers : List (Nat × Nat) → Nat → Bool
  | [], _ => false
  | (lo, hi) :: more, n => if n ≤ hi then lo ≤ n else covers more n

theorem exists_mem_of_covers {spans : List (Nat × Nat)} {n : Nat} (h : covers spans n) :
    ∃ s ∈ spans, s.1 ≤ n ∧ n ≤ s.2 := by
  induction spans with
  | nil => simp [covers] at h
  | cons s more ih =>
    by_cases hn : n ≤ s.2
    · exact ⟨s, by simp, by simpa [covers, hn] using h, hn⟩
    · obtain ⟨t, ht, hb⟩ := ih (by simpa [covers, hn] using h)
      exact ⟨t, by simp [ht], hb⟩

/-- Spans hold nothing in common when no number of the first lies in the second. -/
theorem covers_eq_false_of_apart {spans others : List (Nat × Nat)}
    (apart : ∀ s ∈ spans, ∀ m ∈ List.range' s.1 (s.2 - s.1 + 1), covers others m = false) {n : Nat}
    (h : covers spans n) : covers others n = false := by
  obtain ⟨s, hs, low, high⟩ := exists_mem_of_covers h
  exact apart s hs n (List.mem_range'_1.mpr (by omega))

end SchemaLang.Text

import Mathlib.Data.List.Chain
import TradeIn.Identifier

/-!
# Ids one after the other

An id begins with the milliseconds since the start of 2024, of which 41 bits count, so that a clock that shows an
earlier or a much later time wraps around (`toInt_idOfClock`). While there is room, the id after the last one is the
greater of the first id of the millisecond and the successor of the last id (`toInt_idAfter`). Hence the ids of a source
grow strictly whatever the clock shows (`IdSource.isChain_take`), and exceed the greatest id of the clock by no more than
their number (`IdSource.toInt_getElem_take_le`).
-/

namespace TradeIn

/-- The bits of the first id of a millisecond. -/
theorem toNat_toBitVec_idOfClock (now : Int64) :
    (idOfClock now).toBitVec.toNat = (now - idEpoch).toBitVec.toNat % 2 ^ 41 * 2 ^ 12 := by
  have hlt : (now - idEpoch).toBitVec.toNat % 2 ^ 41 < 2 ^ 41 := Nat.mod_lt _ (by omega)
  rw [idOfClock, Int64.toBitVec_shiftLeft, Int64.toBitVec_and, BitVec.shiftLeft_eq', BitVec.toNat_shiftLeft,
    BitVec.toNat_and]
  change ((now - idEpoch).toBitVec.toNat &&& (2 ^ 41 - 1)) <<< 12 % 2 ^ 64 = _
  rw [Nat.and_two_pow_sub_one_eq_mod, Nat.shiftLeft_eq, Nat.mod_eq_of_lt (by omega)]

/-- The milliseconds since the start of 2024 are counted modulo 2^41, before this start too. -/
theorem toInt_idOfClock (now : Int64) :
    (idOfClock now).toInt = (now.toInt - idEpoch.toInt) % 2 ^ 41 * 2 ^ 12 := by
  have hbits := toNat_toBitVec_idOfClock now
  -- The difference may wrap around at 2^64, which leaves its 41 low bits alone.
  have hlow : ∀ x : ℤ, x.bmod (2 ^ 64) % 2 ^ 41 = x % 2 ^ 41 := fun x => by
    rw [Int.bmod_def]
    split <;> omega
  calc (idOfClock now).toInt
      = (idOfClock now).toBitVec.toNat := BitVec.toInt_eq_toNat_of_lt (by omega)
    _ = ((now - idEpoch).toBitVec.toNat : ℤ) % 2 ^ 41 * 2 ^ 12 := by omega
    _ = (now - idEpoch).toInt % 2 ^ 41 * 2 ^ 12 := by
      rw [← hlow, ← BitVec.toInt_eq_toNat_bmod]
      rfl
    _ = (now.toInt - idEpoch.toInt) % 2 ^ 41 * 2 ^ 12 := by rw [Int64.toInt_sub, hlow]

/-- No millisecond begins with an id of more than 53 bits. -/
theorem toInt_idOfClock_le (now : Int64) : (idOfClock now).toInt ≤ (2 ^ 41 - 1) * 2 ^ 12 := by
  rw [toInt_idOfClock]
  omega

/-- The id after the last one is the first id of the millisecond, unless this one is not greater than the last. -/
theorem toInt_idAfter {last : Int64} (first : Int64) (hroom : last.toInt + 1 < 2 ^ 63) :
    (idAfter last first).toInt = max first.toInt (last.toInt + 1) := by
  have hlow := last.le_toInt
  have hsucc : (last + 1).toInt = last.toInt + 1 := by
    rw [Int64.toInt_add, Int64.toInt_one]
    exact Int.bmod_eq_of_le (by omega) (by omega)
  rw [idAfter]
  split
  · next hlt =>
    rw [Int64.lt_iff_toInt_lt] at hlt
    omega
  · next hle =>
    rw [Int64.lt_iff_toInt_lt] at hle
    omega

namespace IdSource

variable {source : IdSource} {k : ℕ} {clocks : List Int64}

/-- The next id comes after the last one. -/
theorem next_fst (source : IdSource) (now : Int64) : (source.next now).1 = idAfter source.last (idOfClock now) := by
  simp only [next]

/-- The id that was given out is the last one. -/
theorem next_snd (source : IdSource) (now : Int64) : (source.next now).2 = ⟨(source.next now).1⟩ := by
  simp only [next]

/-- The first of some ids is the next one. -/
theorem take_cons (source : IdSource) (now : Int64) (rest : List Int64) :
    source.take (now :: rest) = (source.next now).1 :: (source.next now).2.take rest := by
  simp only [take]

/-- The source after it has given out ids at these times. -/
def after (source : IdSource) (clocks : List Int64) : IdSource :=
  clocks.foldl (fun source now => (source.next now).2) source

/-- The source gives out the first id before the others. -/
theorem after_cons (source : IdSource) (now : Int64) (rest : List Int64) :
    source.after (now :: rest) = (source.next now).2.after rest := by
  rw [after, List.foldl_cons, after]

/-- The last of some ids is given out by what the others have left of the source. -/
theorem take_concat (source : IdSource) (clocks : List Int64) (now : Int64) :
    source.take (clocks ++ [now]) = source.take clocks ++ [((source.after clocks).next now).1] := by
  induction clocks generalizing source with
  | nil => rfl
  | cons first rest ih => rw [List.cons_append, take_cons, ih, take_cons, List.cons_append, after_cons]

/-- The last id is less than `k` above the greatest id of the clock. -/
def IsWithin (k : ℕ) (source : IdSource) : Prop := source.last.toInt < (2 ^ 41 - 1) * 2 ^ 12 + k

/-- A new source is below the greatest id of the clock. -/
theorem isWithin_fresh : fresh.IsWithin 0 := by
  unfold IsWithin
  decide

/-- A source that has given out an id is within what this id is within. -/
theorem isWithin_next_iff {now : Int64} :
    (source.next now).2.IsWithin k ↔ (source.next now).1.toInt < (2 ^ 41 - 1) * 2 ^ 12 + k := by
  rw [next_snd, IsWithin]

/-- An id is greater than the last one, and is one more above the greatest id of the clock at most. -/
theorem IsWithin.next (h : source.IsWithin k) (hroom : k < 2 ^ 62) (now : Int64) :
    source.last < (source.next now).1 ∧ (source.next now).2.IsWithin (k + 1) := by
  have hclock := toInt_idOfClock_le now
  rw [IsWithin] at h
  have hnext : (source.next now).1.toInt = max (idOfClock now).toInt (source.last.toInt + 1) := by
    rw [next_fst]
    exact toInt_idAfter _ (by omega)
  rw [isWithin_next_iff, Int64.lt_iff_toInt_lt]
  omega

/-- The ids of a source grow strictly, from its last one on. -/
theorem isChain_take (h : source.IsWithin k) (hroom : k + clocks.length ≤ 2 ^ 62) :
    (source.last :: source.take clocks).IsChain (· < ·) := by
  induction clocks generalizing source k with
  | nil => exact .singleton _
  | cons now rest ih =>
    rw [List.length_cons] at hroom
    obtain ⟨hgreater, hwithin⟩ := h.next (by omega) now
    rw [take_cons]
    exact List.isChain_cons_cons.2 ⟨hgreater, ih hwithin (by omega)⟩

/-- Each id is at most so far above the greatest id of the clock as ids were given out before it. -/
theorem toInt_getElem_take_le (h : source.IsWithin k) (hroom : k + clocks.length ≤ 2 ^ 62) {n : ℕ}
    (hn : n < (source.take clocks).length) :
    (source.take clocks)[n].toInt ≤ (2 ^ 41 - 1) * 2 ^ 12 + (k + n) := by
  induction clocks generalizing source k n with
  | nil => exact absurd hn (Nat.not_lt_zero n)
  | cons now rest ih =>
    rw [List.length_cons] at hroom
    obtain ⟨-, hwithin⟩ := h.next (by omega) now
    cases n with
    | zero =>
      rw [isWithin_next_iff] at hwithin
      simp only [take_cons, List.getElem_cons_zero]
      omega
    | succ n =>
      have hrest := ih hwithin (by omega) (Nat.lt_of_succ_lt_succ hn)
      simp only [take_cons, List.getElem_cons_succ]
      omega

end IdSource

end TradeIn

import TradeIn.Store.Table

/-!
# The rows of a table

Where each key occurs once, the rows of a table are what is found under its keys: tables that find the same hold the
same rows. Putting a value under a key keeps the keys in strictly increasing order.
-/

namespace TradeIn

namespace Table

variable {κ ν μ : Type} {table other : Table κ ν} {key : κ} {value : ν}

section Lookup

variable [BEq κ]

/-- The value under a key, where all values are taken by a function from those of another table. -/
theorem get?_map (f : ν → μ) (table : Table κ ν) (key : κ) :
    get? (table.map fun row => (row.1, f row.2)) key = (get? table key).map f := by
  induction table with
  | nil => rfl
  | cons row rest ih =>
    obtain ⟨k, v⟩ := row
    simp only [get?] at ih
    cases h : key == k <;> simp [get?, List.lookup_cons, h, ih]

variable [LawfulBEq κ]

/-- What is found under a key is there. -/
theorem mem_of_get? (h : get? table key = some value) : (key, value) ∈ table := by
  obtain ⟨before, after, heq, _⟩ := List.lookup_eq_some_iff.1 h
  simp [heq]

/-- Where each key occurs once, what is there is found under its key. -/
theorem get?_of_mem (hkeys : (table.map Prod.fst).Nodup) (h : (key, value) ∈ table) : get? table key = some value := by
  induction table with
  | nil => cases h
  | cons row rest ih =>
    rw [List.map_cons, List.nodup_cons] at hkeys
    rcases List.mem_cons.1 h with rfl | hmem
    · exact List.lookup_cons_self
    · have hne : key ≠ row.1 := by
        rintro rfl
        exact hkeys.1 (List.mem_map.2 ⟨_, hmem, rfl⟩)
      rw [get?, List.lookup_cons, beq_eq_false_iff_ne.2 hne]
      exact ih hkeys.2 hmem

/-- Rearranged rows are found under the same keys. -/
theorem get?_eq_of_perm (hkeys : (table.map Prod.fst).Nodup) (h : other.Perm table) (key : κ) :
    get? other key = get? table key := by
  have hother : (other.map Prod.fst).Nodup := (h.map Prod.fst).nodup_iff.2 hkeys
  apply Option.ext
  intro value
  constructor
  · exact fun hvalue => get?_of_mem hkeys (h.mem_iff.1 (mem_of_get? hvalue))
  · exact fun hvalue => get?_of_mem hother (h.mem_iff.2 (mem_of_get? hvalue))

/-- Tables that find the same under every key have the same rows. -/
theorem perm_of_get?_eq (hkeys : (table.map Prod.fst).Nodup) (hother : (other.map Prod.fst).Nodup)
    (h : ∀ key, get? table key = get? other key) : table.Perm other := by
  have hrows : ∀ {rows : Table κ ν}, (rows.map Prod.fst).Nodup → rows.Nodup := fun hnodup =>
    List.Pairwise.of_map Prod.fst (fun _ _ hne heq => hne (congrArg Prod.fst heq)) hnodup
  refine (List.perm_ext_iff_of_nodup (hrows hkeys) (hrows hother)).2 fun row => ⟨fun hrow => ?_, fun hrow => ?_⟩
  · exact mem_of_get? ((h row.1).symm.trans (get?_of_mem hkeys hrow))
  · exact mem_of_get? ((h row.1).trans (get?_of_mem hother hrow))

end Lookup

variable [LT κ]

/-- The keys are in strictly increasing order, so no key occurs twice. -/
def Sorted (table : Table κ ν) : Prop := (table.map Prod.fst).Pairwise (· < ·)

/-- Each key of a table in order occurs once. -/
theorem Sorted.nodup_keys [LE κ] [Std.LawfulOrderLT κ] (h : Sorted table) : (table.map Prod.fst).Nodup :=
  List.Pairwise.imp Std.ne_of_lt h

variable [DecidableLT κ] [DecidableEq κ]

/-- Putting a value adds its row and no other. -/
theorem mem_put {row : κ × ν} (h : row ∈ put key value table) : row = (key, value) ∨ row ∈ table := by
  induction table with
  | nil => simpa [put] using h
  | cons first rest ih =>
    simp only [put] at h
    split at h
    · simpa using h
    · split at h
      · exact (List.mem_cons.1 h).imp_right (List.mem_cons_of_mem _)
      · rcases List.mem_cons.1 h with rfl | h
        · exact .inr List.mem_cons_self
        · exact (ih h).imp_right (List.mem_cons_of_mem _)

/-- Putting a value adds its key and no other. -/
theorem mem_keys_put {k : κ} (h : k ∈ (put key value table).map Prod.fst) : k = key ∨ k ∈ table.map Prod.fst := by
  obtain ⟨row, hrow, rfl⟩ := List.mem_map.1 h
  rcases mem_put hrow with rfl | hold
  · exact .inl rfl
  · exact .inr (List.mem_map_of_mem hold)

/-- A key after all others goes to the end. -/
theorem put_of_forall_after (h : ∀ k ∈ table.map Prod.fst, ¬key < k ∧ key ≠ k) :
    put key value table = table ++ [(key, value)] := by
  induction table with
  | nil => rfl
  | cons row rest ih =>
    rw [List.map_cons, List.forall_mem_cons] at h
    simp only [put, h.1.1, h.1.2, if_false, ih h.2, List.cons_append]

variable [LE κ] [Std.LawfulOrderLT κ] [Std.IsLinearOrder κ]

/-- Putting a value keeps the order of the keys. -/
theorem sorted_put (h : Sorted table) : Sorted (put key value table) := by
  induction table with
  | nil => simp [put, Sorted]
  | cons row rest ih =>
    obtain ⟨k, v⟩ := row
    simp only [Sorted, List.map_cons, List.pairwise_cons] at h
    simp only [put]
    split
    · next hlt =>
      simp only [Sorted, List.map_cons, List.pairwise_cons, List.mem_cons, forall_eq_or_imp]
      exact ⟨⟨hlt, fun l hl => Std.lt_trans hlt (h.1 l hl)⟩, h⟩
    · split
      · next heq =>
        subst heq
        exact List.pairwise_cons.2 h
      · next hlt hne =>
        simp only [Sorted, List.map_cons, List.pairwise_cons]
        refine ⟨fun l hl => ?_, ih h.2⟩
        rcases mem_keys_put hl with rfl | hl
        · exact Std.lt_of_le_of_ne (Std.not_lt.1 hlt) (Ne.symm hne)
        · exact h.1 l hl

end Table

end TradeIn

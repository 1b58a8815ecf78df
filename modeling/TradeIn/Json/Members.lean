/-!
# Members in key order

The members of a JSON object, the answers of a questionnaire and the per-unit amounts of a price model are all
lists of keys with values that hold each key once, in increasing order of code points. `Members.ofList` brings
any list into that form; of several values for one key the last one stays.
-/

namespace TradeIn

/-- Keys with their values. -/
abbrev Members (α : Type) := List (String × α)

namespace Members

variable {α : Type}

/-- The keys are in strictly increasing order, so no key occurs twice. -/
def Sorted (members : Members α) : Prop := (members.map Prod.fst).Pairwise (· < ·)

/-- The value of a key. -/
def get? (members : Members α) (key : String) : Option α := members.lookup key

/-- Put a member in its place unless its key is there already. -/
def insertNew (key : String) (value : α) : Members α → Members α
  | [] => [(key, value)]
  | (k, v) :: rest =>
    if key < k then (key, value) :: (k, v) :: rest
    else if key = k then (k, v) :: rest
    else (k, v) :: insertNew key value rest

/-- The members in key order; the last value of a key stays. -/
def ofList (members : List (String × α)) : Members α :=
  members.foldr (fun member sorted => insertNew member.1 member.2 sorted) []

/-- Inserting a member adds its key and no other. -/
theorem mem_keys_insertNew {key : String} {value : α} {members : Members α} {k : String} :
    k ∈ (insertNew key value members).map Prod.fst ↔ k = key ∨ k ∈ members.map Prod.fst := by
  induction members with
  | nil => simp [insertNew]
  | cons member rest ih =>
    obtain ⟨l, v⟩ := member
    simp only [insertNew]
    split
    · simp
    · split
      · next h => subst h; simp
      · simp only [List.map_cons, List.mem_cons, ih]
        grind

/-- Inserting a member keeps the order. -/
theorem sorted_insertNew {key : String} {value : α} {members : Members α} (h : Sorted members) :
    Sorted (insertNew key value members) := by
  induction members with
  | nil => simp [insertNew, Sorted]
  | cons member rest ih =>
    obtain ⟨k, v⟩ := member
    simp only [Sorted, List.map_cons, List.pairwise_cons] at h
    simp only [insertNew]
    split
    · next hlt =>
      simp only [Sorted, List.map_cons, List.pairwise_cons, List.mem_cons, forall_eq_or_imp]
      exact ⟨⟨hlt, fun l hl => String.lt_trans hlt (h.1 l hl)⟩, h⟩
    · split
      · simpa only [Sorted, List.map_cons, List.pairwise_cons] using h
      · next hlt hne =>
        simp only [Sorted, List.map_cons, List.pairwise_cons]
        refine ⟨fun l hl => ?_, ih h.2⟩
        rcases mem_keys_insertNew.1 hl with rfl | hl
        · exact Std.lt_of_le_of_ne hlt (Ne.symm hne)
        · exact h.1 l hl

/-- Any list of members is brought into key order. -/
theorem sorted_ofList (members : List (String × α)) : Sorted (ofList members) := by
  induction members with
  | nil => simp [ofList, Sorted]
  | cons member rest ih => exact sorted_insertNew ih

/-- A key below all others goes in front. -/
theorem insertNew_of_lt {key : String} {value : α} {members : Members α}
    (h : ∀ k ∈ members.map Prod.fst, key < k) : insertNew key value members = (key, value) :: members := by
  cases members with
  | nil => rfl
  | cons member rest =>
    have hlt : key < member.1 := h member.1 (by simp)
    simp [insertNew, hlt]

/-- Members in key order stay as they are. -/
theorem ofList_eq_self {members : Members α} (h : Sorted members) : ofList members = members := by
  induction members with
  | nil => rfl
  | cons member rest ih =>
    simp only [Sorted, List.map_cons, List.pairwise_cons] at h
    change insertNew member.1 member.2 (ofList rest) = _
    rw [ih h.2, insertNew_of_lt h.1]

/-- The value of a key is that of the first member with the key. -/
theorem get?_cons (l : String) (v : α) (rest : Members α) (k : String) :
    get? ((l, v) :: rest) k = if k = l then some v else get? rest k := by
  by_cases h : k = l
  · simp [get?, h]
  · simp [get?, List.lookup_cons, h, beq_eq_false_iff_ne.2 h]

/-- A key below all others has no value. -/
theorem get?_eq_none_of_lt {members : Members α} {key : String}
    (h : ∀ k ∈ members.map Prod.fst, key < k) : get? members key = none := by
  simp only [get?, List.lookup_eq_none_iff]
  intro member hmember
  have hlt := h member.1 (List.mem_map_of_mem hmember)
  simpa using Std.ne_of_lt hlt

/-- Inserting a member gives its key a value, unless it has one, and leaves the other keys alone. -/
theorem get?_insertNew {key : String} {value : α} {members : Members α} (h : Sorted members) (k : String) :
    get? (insertNew key value members) k =
      if k = key then some ((get? members key).getD value) else get? members k := by
  induction members with
  | nil => exact get?_cons key value [] k
  | cons member rest ih =>
    obtain ⟨l, v⟩ := member
    simp only [Sorted, List.map_cons, List.pairwise_cons] at h
    simp only [insertNew]
    split
    · next hlt =>
      have hnone : get? ((l, v) :: rest) key = none := by
        refine get?_eq_none_of_lt fun k hk => ?_
        rcases List.mem_cons.1 hk with rfl | hk
        · exact hlt
        · exact String.lt_trans hlt (h.1 k hk)
      rw [hnone, get?_cons, Option.getD_none]
    · split
      · next heq =>
        simp only [get?_cons, heq]
        split <;> simp_all
      · simp only [get?_cons, ih h.2]
        grind

end Members

end TradeIn

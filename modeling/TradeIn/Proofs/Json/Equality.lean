import Mathlib.Data.List.Forall2
import TradeIn.Proofs.Json.NumberValue
import TradeIn.Proofs.Json.Reading

/-!
# Equality by value

Two values are alike when they have the same shape, the same texts and booleans, and numbers that are alike one by one
(`Json.AlikeBy`). Values that are equal as conditions see it are alike by numbers that are equal as conditions see it:
numbers that stand for the same number, or are taken for each other. So equality has no direction, but it is not
transitive, since the same number may be taken for two different ones.
-/

namespace TradeIn

namespace Json

mutual

/-- The numbers in a value, from left to right. -/
def numbers : Json → List Number
  | number n => [n]
  | array items => itemNumbers items
  | object members => memberNumbers members
  | _ => []

/-- The numbers in items. -/
def itemNumbers : List Json → List Number
  | [] => []
  | item :: items => item.numbers ++ itemNumbers items

/-- The numbers in the values of members. -/
def memberNumbers : List (String × Json) → List Number
  | [] => []
  | (_, value) :: members => value.numbers ++ memberNumbers members

end

mutual

/-- The value with zero in the place of every number. -/
def shape : Json → Json
  | number _ => .ofInt64 0
  | array items => .array (itemShapes items)
  | object members => .object (memberShapes members)
  | value => value

/-- The shapes of items. -/
def itemShapes : List Json → List Json
  | [] => []
  | item :: items => item.shape :: itemShapes items

/-- The shapes of the values of members. -/
def memberShapes : List (String × Json) → List (String × Json)
  | [] => []
  | (key, value) :: members => (key, value.shape) :: memberShapes members

end

/-- Two values of the same shape, with numbers that are related one by one. -/
def AlikeBy (related : Number → Number → Prop) (a b : Json) : Prop :=
  a.shape = b.shape ∧ List.Forall₂ related a.numbers b.numbers

section Shape

mutual

/-- A shape has as many numbers as the value. -/
theorem length_numbers_shape : ∀ value : Json, value.shape.numbers.length = value.numbers.length
  | null | bool _ | string _ | number _ => rfl
  | array items => by simp only [shape, numbers, length_itemNumbers_shapes items]
  | object members => by simp only [shape, numbers, length_memberNumbers_shapes members]

/-- So have the shapes of items. -/
theorem length_itemNumbers_shapes : ∀ items : List Json,
    (itemNumbers (itemShapes items)).length = (itemNumbers items).length
  | [] => rfl
  | item :: items => by
    simp only [itemShapes, itemNumbers, List.length_append, length_numbers_shape item, length_itemNumbers_shapes items]

/-- So have the shapes of the values of members. -/
theorem length_memberNumbers_shapes : ∀ members : List (String × Json),
    (memberNumbers (memberShapes members)).length = (memberNumbers members).length
  | [] => rfl
  | (_, value) :: members => by
    simp only [memberShapes, memberNumbers, List.length_append, length_numbers_shape value,
      length_memberNumbers_shapes members]

end

/-- The keys of members are no part of their values. -/
theorem keys_memberShapes (members : List (String × Json)) :
    (memberShapes members).map Prod.fst = members.map Prod.fst := by
  induction members with
  | nil => rfl
  | cons member members ih => simp [memberShapes, ih]

/-- Lists are related one by one when their first parts of the same length and the rests are. -/
theorem forall₂_append_iff {α β : Type} {related : α → β → Prop} {xs xs' : List α} {ys ys' : List β}
    (h : xs.length = ys.length) :
    List.Forall₂ related (xs ++ xs') (ys ++ ys') ↔ List.Forall₂ related xs ys ∧ List.Forall₂ related xs' ys' := by
  constructor
  · intro happend
    have hfirst := List.forall₂_take_append _ ys ys' happend
    have hrest := List.forall₂_drop_append _ ys ys' happend
    rw [← h, List.take_left] at hfirst
    rw [← h, List.drop_left] at hrest
    exact ⟨hfirst, hrest⟩
  · exact fun ⟨hfirst, hrest⟩ => List.rel_append hfirst hrest

/-- A value in front of others is alike on its own. -/
theorem alikeBy_and_iff {related : Number → Number → Prop} {x y : Json} {ns ms : List Number} {sameRest : Prop} :
    x.AlikeBy related y ∧ sameRest ∧ List.Forall₂ related ns ms ↔
      (x.shape = y.shape ∧ sameRest) ∧ List.Forall₂ related (x.numbers ++ ns) (y.numbers ++ ms) := by
  unfold AlikeBy
  constructor
  · rintro ⟨⟨hshape, hfirst⟩, hsame, hrest⟩
    exact ⟨⟨hshape, hsame⟩, List.rel_append hfirst hrest⟩
  · rintro ⟨⟨hshape, hsame⟩, happend⟩
    have hlength : x.numbers.length = y.numbers.length := by
      rw [← length_numbers_shape x, ← length_numbers_shape y, hshape]
    obtain ⟨hfirst, hrest⟩ := (forall₂_append_iff hlength).1 happend
    exact ⟨⟨hshape, hfirst⟩, hsame, hrest⟩

end Shape

section Comparison

variable {xs ys : List (String × Json)}

/-- Every member of the first list has an equal one in the second. -/
theorem deepEqualMembers_iff : deepEqualMembers xs ys = true ↔
    ∀ member ∈ xs, ∃ y, Members.get? ys member.1 = some y ∧ member.2.deepEqual y = true := by
  induction xs with
  | nil => simp [deepEqualMembers]
  | cons member xs ih =>
    obtain ⟨key, x⟩ := member
    simp only [deepEqualMembers, Bool.and_eq_true, ih, List.forall_mem_cons]
    cases Members.get? ys key <;> simp

/-- As many members with keys in order, of which each has an equal one, have the same keys. -/
theorem keys_eq_of_deepEqualMembers (hxs : Members.Sorted xs) (hys : Members.Sorted ys)
    (hlength : xs.length = ys.length) (h : deepEqualMembers xs ys = true) : xs.map Prod.fst = ys.map Prod.fst := by
  have hsubset : xs.map Prod.fst ⊆ ys.map Prod.fst := by
    intro key hkey
    obtain ⟨member, hmember, rfl⟩ := List.mem_map.1 hkey
    obtain ⟨y, hy, -⟩ := deepEqualMembers_iff.1 h member hmember
    exact List.mem_map.2 ⟨_, mem_of_get? hy, rfl⟩
  have hnodup : (xs.map Prod.fst).Nodup := List.Pairwise.imp Std.ne_of_lt hxs
  have hperm : (xs.map Prod.fst).Perm (ys.map Prod.fst) :=
    (hnodup.subperm hsubset).perm_of_length_le (by simp [hlength])
  exact hperm.eq_of_pairwise (fun _ _ _ _ hlt hgt => absurd hgt (Std.not_gt_of_lt hlt)) hxs hys

/-- A member in front with a key that no other list has changes nothing. -/
theorem deepEqualMembers_cons_of_not_mem {key : String} {y : Json} (h : key ∉ xs.map Prod.fst) :
    deepEqualMembers xs ((key, y) :: ys) = deepEqualMembers xs ys := by
  rw [Bool.eq_iff_iff, deepEqualMembers_iff, deepEqualMembers_iff]
  refine forall₂_congr fun member hmember => ?_
  have hne : member.1 ≠ key := by
    rintro rfl
    exact h (List.mem_map_of_mem hmember)
  rw [Members.get?_cons, if_neg hne]

mutual

/-- The comparison finds values alike whose numbers are equal as conditions see it. -/
theorem deepEqual_iff_alikeBy : ∀ a b : Json, a.WellFormed → b.WellFormed →
    (a.deepEqual b = true ↔ a.AlikeBy (fun m n => m.sameValue n = true) b)
  | null, b, _, _ => by cases b <;> simp [deepEqual, AlikeBy, shape, numbers, ofInt64]
  | bool _, b, _, _ => by cases b <;> simp [deepEqual, AlikeBy, shape, numbers, ofInt64]
  | number _, b, _, _ => by cases b <;> simp [deepEqual, AlikeBy, shape, numbers, ofInt64]
  | string _, b, _, _ => by cases b <;> simp [deepEqual, AlikeBy, shape, numbers, ofInt64]
  | array xs, b, ha, hb => by
    cases b with
    | array ys =>
      simp only [WellFormed] at ha hb
      simpa only [deepEqual, AlikeBy, shape, numbers, array.injEq] using deepEqualItems_iff xs ys ha hb
    | null | bool | number | string | object => simp [deepEqual, AlikeBy, shape, ofInt64]
  | object xs, b, ha, hb => by
    cases b with
    | object ys =>
      simp only [WellFormed] at ha hb
      simp only [deepEqual, AlikeBy, shape, numbers, object.injEq, Bool.and_eq_true, beq_iff_eq]
      constructor
      · rintro ⟨hlength, hmembers⟩
        have hkeys := keys_eq_of_deepEqualMembers ha.1 hb.1 hlength hmembers
        exact (deepEqualMembers_iff_alike xs ys ha hb.2 hkeys).1 hmembers
      · intro halike
        have hkeys : xs.map Prod.fst = ys.map Prod.fst := by
          rw [← keys_memberShapes xs, ← keys_memberShapes ys, halike.1]
        have hlength : xs.length = ys.length := by simpa using congrArg List.length hkeys
        exact ⟨hlength, (deepEqualMembers_iff_alike xs ys ha hb.2 hkeys).2 halike⟩
    | null | bool | number | string | array => simp [deepEqual, AlikeBy, shape, ofInt64]

/-- So it does for items, position by position. -/
theorem deepEqualItems_iff : ∀ xs ys : List Json, ItemsWellFormed xs → ItemsWellFormed ys →
    (deepEqualItems xs ys = true ↔ itemShapes xs = itemShapes ys ∧
      List.Forall₂ (fun m n => m.sameValue n = true) (itemNumbers xs) (itemNumbers ys))
  | [], ys, _, _ => by cases ys <;> simp [deepEqualItems, itemShapes, itemNumbers]
  | x :: xs, ys, hxs, hys => by
    cases ys with
    | nil => simp [deepEqualItems, itemShapes]
    | cons y ys =>
      rw [deepEqualItems, Bool.and_eq_true, deepEqual_iff_alikeBy x y hxs.1 hys.1,
        deepEqualItems_iff xs ys hxs.2 hys.2, alikeBy_and_iff]
      simp only [itemShapes, itemNumbers, List.cons.injEq]

/-- So it does for members with the same keys. -/
theorem deepEqualMembers_iff_alike : ∀ xs ys : List (String × Json), Members.Sorted xs ∧ MembersWellFormed xs →
    MembersWellFormed ys → xs.map Prod.fst = ys.map Prod.fst →
    (deepEqualMembers xs ys = true ↔ memberShapes xs = memberShapes ys ∧
      List.Forall₂ (fun m n => m.sameValue n = true) (memberNumbers xs) (memberNumbers ys))
  | [], ys, _, _, hkeys => by
    obtain rfl : ys = [] := List.map_eq_nil_iff.1 hkeys.symm
    simp [deepEqualMembers, memberShapes, memberNumbers]
  | (key, x) :: xs, ys, hxs, hys, hkeys => by
    cases ys with
    | nil => cases hkeys
    | cons member ys =>
      obtain ⟨other, y⟩ := member
      simp only [List.map_cons, List.cons.injEq] at hkeys
      obtain ⟨rfl, hkeys⟩ := hkeys
      simp only [Members.Sorted, List.map_cons, List.pairwise_cons] at hxs
      have hnot : key ∉ xs.map Prod.fst := fun hmem => Std.ne_of_lt (hxs.1.1 key hmem) rfl
      rw [deepEqualMembers, Members.get?_cons, if_pos rfl, deepEqualMembers_cons_of_not_mem hnot, Bool.and_eq_true,
        deepEqual_iff_alikeBy x y hxs.2.1 hys.1, deepEqualMembers_iff_alike xs ys ⟨hxs.1.2, hxs.2.2⟩ hys.2 hkeys,
        alikeBy_and_iff]
      simp only [memberShapes, memberNumbers, List.cons.injEq, Prod.mk.injEq, true_and]

end

end Comparison

section Alike

variable {a b c : Json} {related related' related'' : Number → Number → Prop}

/-- Every value is alike itself where every number is. -/
theorem alikeBy_refl (h : ∀ n, related n n) (a : Json) : a.AlikeBy related a :=
  ⟨rfl, List.forall₂_same.2 fun n _ => h n⟩

/-- What values are alike by may be replaced for the numbers that occur in them. -/
theorem AlikeBy.mono (halike : a.AlikeBy related b)
    (h : ∀ m ∈ a.numbers, ∀ n ∈ b.numbers, related m n → related' m n) : a.AlikeBy related' b := by
  obtain ⟨hshape, hnumbers⟩ := halike
  obtain ⟨hlength, hzip⟩ := List.forall₂_iff_zip.1 hnumbers
  refine ⟨hshape, List.forall₂_iff_zip.2 ⟨hlength, fun {m n} hmem => ?_⟩⟩
  obtain ⟨hm, hn⟩ := List.of_mem_zip hmem
  exact h m hm n hn (hzip hmem)

/-- Values are alike in both directions where numbers are. -/
theorem AlikeBy.symm (halike : a.AlikeBy related b) (h : ∀ m n, related m n → related' n m) : b.AlikeBy related' a :=
  ⟨halike.1.symm, (halike.2.imp h).flip⟩

/-- Values that are alike in two ways are alike in any way that follows from both. -/
theorem AlikeBy.mp (halike : a.AlikeBy related b) (hother : a.AlikeBy related' b)
    (h : ∀ m n, related m n → related' m n → related'' m n) : a.AlikeBy related'' b :=
  ⟨halike.1, halike.2.mp h hother.2⟩

/-- Two values that are alike a third one are alike each other, number by number through those of the third. -/
theorem AlikeBy.through (hab : a.AlikeBy related b) (hbc : b.AlikeBy related' c) :
    a.AlikeBy (fun m p => ∃ n, related m n ∧ related' n p) c := by
  refine ⟨hab.1.trans hbc.1, ?_⟩
  obtain ⟨-, hab⟩ := hab
  obtain ⟨-, hbc⟩ := hbc
  generalize a.numbers = ms at hab
  generalize b.numbers = ns at hab hbc
  generalize c.numbers = ps at hbc
  induction hab generalizing ps with
  | nil =>
    cases hbc
    exact .nil
  | cons hmn _ ih =>
    cases hbc with
    | cons hnp hrest => exact .cons ⟨_, hmn, hnp⟩ (ih _ hrest)

end Alike

section Law

variable {a b c : Json}

/-- Every value equals itself. -/
theorem deepEqual_self (ha : a.WellFormed) : a.deepEqual a = true :=
  (deepEqual_iff_alikeBy a a ha ha).2 (alikeBy_refl (fun n => (Number.sameValue_iff n n).2 (.inl rfl)) a)

/-- A value equals another one exactly if that equals it. -/
theorem deepEqual_comm (ha : a.WellFormed) (hb : b.WellFormed) : a.deepEqual b = b.deepEqual a := by
  have hsymm : ∀ m n : Number, m.sameValue n = true → n.sameValue m = true := fun m n => by
    rw [Number.sameValue_comm]
    exact id
  rw [Bool.eq_iff_iff, deepEqual_iff_alikeBy a b ha hb, deepEqual_iff_alikeBy b a hb ha]
  exact ⟨fun h => h.symm hsymm, fun h => h.symm hsymm⟩

/-- Values are equal where they are alike by numbers that stand for the same number or are taken for each other. -/
theorem deepEqual_iff_taken (ha : a.WellFormed) (hb : b.WellFormed) :
    a.deepEqual b = true ↔ a.AlikeBy (fun m n => m.value = n.value ∨ m.IsTakenFor n) b := by
  simp only [deepEqual_iff_alikeBy a b ha hb, Number.sameValue_iff]

/-- Two values that equal a third one equal each other unless they hold two different signed 64-bit integers at the same
place. -/
theorem deepEqual_iff_of_deepEqual (ha : a.WellFormed) (hb : b.WellFormed) (hc : c.WellFormed)
    (hab : a.deepEqual b = true) (hbc : b.deepEqual c = true) :
    a.deepEqual c = true ↔ a.AlikeBy (fun m p => m.IsSigned64 → p.IsSigned64 → m.value = p.value) c := by
  have hthrough := ((deepEqual_iff_alikeBy a b ha hb).1 hab).through ((deepEqual_iff_alikeBy b c hb hc).1 hbc)
  rw [deepEqual_iff_alikeBy a c ha hc]
  constructor
  · exact fun h => hthrough.mp h fun _ _ ⟨_, hmn, hnp⟩ => (Number.sameValue_iff_of_sameValue hmn hnp).1
  · exact fun h => hthrough.mp h fun _ _ ⟨_, hmn, hnp⟩ => (Number.sameValue_iff_of_sameValue hmn hnp).2

/-- Values are equal exactly if they have the same shape and the same texts and booleans, and their numbers stand for
the same number or are taken for each other, one by one. So where no number of one is taken for a number of the other,
equality is equality by value. Equality is reflexive and symmetric; it is transitive but for two different signed 64-bit
integers that equal the same third number. -/
theorem deepEqual_iff_alikeByValue (ha : a.WellFormed) (hb : b.WellFormed) (hc : c.WellFormed) :
    (a.deepEqual b = true ↔ a.AlikeBy (fun m n => m.value = n.value ∨ m.IsTakenFor n) b) ∧
      ((∀ m ∈ a.numbers, ∀ n ∈ b.numbers, ¬m.IsTakenFor n) →
        (a.deepEqual b = true ↔ a.AlikeBy (fun m n => m.value = n.value) b)) ∧
      a.deepEqual a = true ∧ a.deepEqual b = b.deepEqual a ∧
      (a.deepEqual b = true → b.deepEqual c = true →
        (a.deepEqual c = true ↔ a.AlikeBy (fun m p => m.IsSigned64 → p.IsSigned64 → m.value = p.value) c)) := by
  refine ⟨deepEqual_iff_taken ha hb, fun hclear => ?_, deepEqual_self ha, deepEqual_comm ha hb,
    deepEqual_iff_of_deepEqual ha hb hc⟩
  rw [deepEqual_iff_taken ha hb]
  constructor
  · exact fun h => h.mono fun m hm n hn hmn => hmn.resolve_right (hclear m hm n hn)
  · exact fun h => h.mono fun _ _ _ _ hmn => .inl hmn

/-- An answer with a whole number of gigabytes. -/
private def wholeAnswers : Json :=
  .object
    [("gb", .ofInt64 128),
      ("tags", .array [.string "new", .ofInt64 1])]

/-- The same answer with a binary64 number in one place. -/
private def binaryAnswers : Json :=
  .object
    [("gb", .number (.binary (.ofNat false 128 (by decide)))),
      ("tags", .array [.string "new", .ofInt64 1])]

/-- The whole number 128 and the binary64 number 128 make values that are equal, and alike by value. -/
theorem deepEqual_iff_alikeByValue_whole :
    wholeAnswers.WellFormed ∧ binaryAnswers.WellFormed ∧
      (∀ m ∈ wholeAnswers.numbers, ∀ n ∈ binaryAnswers.numbers, ¬m.IsTakenFor n) ∧
      wholeAnswers.AlikeBy (fun m n => m.value = n.value) binaryAnswers := by
  have hkeys : ["gb", "tags"].Pairwise (· < ·) := by decide
  have hwhole : wholeAnswers.WellFormed := by
    simp only [wholeAnswers, WellFormed, MembersWellFormed, ItemsWellFormed]
    exact ⟨hkeys, trivial, ⟨trivial, trivial, trivial⟩, trivial⟩
  have hbinary : binaryAnswers.WellFormed := by
    simp only [binaryAnswers, WellFormed, MembersWellFormed, ItemsWellFormed]
    exact ⟨hkeys, trivial, ⟨trivial, trivial, trivial⟩, trivial⟩
  have hbinaryFirst : (Number.binary (.ofNat false 128 (by decide))).value = 128 := by
    rw [Number.value, Finite64.value_eq_sign_mul, Finite64.magnitude_ofNat_of_lt (by decide)]
    norm_num [Finite64.ofNat]
  have hfirst : (Number.ofInt64 128).value = ((128 : ℤ) : ℚ) := rfl
  have hsecond : (Number.ofInt64 1).value = ((1 : ℤ) : ℚ) := rfl
  have hwholeNumbers : ∀ m ∈ wholeAnswers.numbers, |m.value| < 2 ^ 53 := by
    have hnumbers : wholeAnswers.numbers = [.ofInt64 128, .ofInt64 1] := rfl
    norm_num [hnumbers, hfirst, hsecond]
  have hbinaryNumbers : ∀ n ∈ binaryAnswers.numbers, |n.value| < 2 ^ 53 := by
    have hnumbers : binaryAnswers.numbers = [.binary (.ofNat false 128 (by decide)), .ofInt64 1] := rfl
    norm_num [hnumbers, hbinaryFirst, hsecond]
  have hclear : ∀ m ∈ wholeAnswers.numbers, ∀ n ∈ binaryAnswers.numbers, ¬m.IsTakenFor n :=
    fun m hm n hn => Number.not_isTakenFor_of_abs_lt (hwholeNumbers m hm) (hbinaryNumbers n hn)
  exact ⟨hwhole, hbinary, hclear,
    ((deepEqual_iff_alikeByValue hwhole hbinary hwhole).2.1 hclear).1 (by decide +kernel)⟩

/-- The binary64 number `2 ^ 53`. -/
private def twoPow53 : Finite64 := ⟨false, ⟨1076 * 2 ^ 52, by decide⟩⟩

/-- The binary64 number `2 ^ 53` equals both the whole number `2 ^ 53` and the next one, which do not equal each
other. -/
theorem deepEqual_twoPow53 :
    (number (.integer (2 ^ 53 + 1) (by decide))).deepEqual (number (.binary twoPow53)) = true ∧
      ¬(number (.integer (2 ^ 53 + 1) (by decide))).AlikeBy (fun m n => m.value = n.value) (number (.binary twoPow53)) ∧
      (number (.binary twoPow53)).deepEqual (number (.integer (2 ^ 53) (by decide))) = true ∧
      (number (.integer (2 ^ 53 + 1) (by decide))).deepEqual (number (.integer (2 ^ 53) (by decide))) = false := by
  refine ⟨by decide +kernel, ?_, by decide +kernel, by decide +kernel⟩
  rintro ⟨-, hnumbers⟩
  have hvalue : ((2 ^ 53 + 1 : ℤ) : ℚ) = twoPow53.value := by simpa [numbers, Number.value] using hnumbers
  norm_num [twoPow53, Finite64.value, Finite64.significand, Finite64.exponent, Finite64.exponentField] at hvalue

end Law

end Json

end TradeIn

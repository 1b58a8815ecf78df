import TradeIn.Price.Body
import TradeIn.Price.Calculation
import TradeIn.Proofs.Condition.Codec
import TradeIn.Proofs.Json.NumberText
import TradeIn.Proofs.Json.Reading

/-!
# The record of a price

A price model is recorded in JSON. What is read from the record is the model itself but for its conditions, which are
those that stand for the recorded values (`PriceModel.recovered`). The model of a rule body gives the same prices
before and after that. A record that went through text is the record of some model again, though its numbers may have
changed.
-/

namespace TradeIn

namespace Binary64

/-- The number is neither an infinity nor a NaN. -/
def IsFinite (x : Binary64) : Prop := ∃ y, x = .finite y

/-- A finite number is read back. -/
theorem IsFinite.read_ofBinary64 {x : Binary64} (h : x.IsFinite) :
    Reader.binary64 (Json.ofBinary64 x).parsed = .ok x := by
  obtain ⟨y, rfl⟩ := h
  rfl

/-- A finite number that went through text is a finite number again. -/
theorem IsFinite.recoded_ofBinary64 {x : Binary64} (h : x.IsFinite) {read : Json}
    (hread : (Json.ofBinary64 x).recoded? = some read) : ∃ y : Binary64, y.IsFinite ∧ Json.ofBinary64 y = read := by
  obtain ⟨x, rfl⟩ := h
  simp only [Json.ofBinary64, Json.recoded?, Option.map_eq_some_iff] at hread
  obtain ⟨number, hnumber, rfl⟩ := hread
  obtain ⟨y, rfl⟩ := Number.exists_of_reread?_binary hnumber
  exact ⟨.finite y, ⟨y, rfl⟩, rfl⟩

end Binary64

namespace Adjustment

variable {adjustment : Adjustment}

/-- The adjustment that is read from its record. -/
def recovered (adjustment : Adjustment) : Adjustment :=
  { adjustment with condition := .ofJson adjustment.condition.toJson }

/-- An adjustment that can be recorded: its condition stands for a well formed value, and its delta is finite. -/
def IsRecordable (adjustment : Adjustment) : Prop :=
  adjustment.condition.toJson.WellFormed ∧ adjustment.delta.IsFinite

/-- An adjustment is read from its record. -/
theorem IsRecordable.read_toJson (h : adjustment.IsRecordable) :
    reader adjustment.toJson.parsed = .ok adjustment.recovered := by
  obtain ⟨hcondition, hdelta⟩ := h
  have hif : Condition.reader adjustment.condition.toJson.parsed = .ok (.ofJson adjustment.condition.toJson) := by
    rw [Condition.reader, Parsed.toJson_parsed _ hcondition]
    rfl
  exact RecordReader.Reads.read_eq
    (((RecordReader.reads_required rfl hif).map Adjustment.mk).seq
      (RecordReader.reads_required rfl hdelta.read_ofBinary64)) (by simp)

/-- A recorded adjustment that went through text is a recorded adjustment again. -/
theorem IsRecordable.recoded_toJson (h : adjustment.IsRecordable) {read : Json}
    (hread : adjustment.toJson.recoded? = some read) : ∃ other : Adjustment, other.IsRecordable ∧ other.toJson = read := by
  obtain ⟨hcondition, hdelta⟩ := h
  simp only [toJson, Json.recoded?, Json.recodedMembers?, bind, Option.bind_eq_some_iff, Option.map_eq_some_iff, pure,
    Option.some.injEq] at hread
  obtain ⟨_, ⟨condition, hif, _, ⟨delta, hthen, _, rfl, rfl⟩, rfl⟩, rfl⟩ := hread
  obtain ⟨y, hy, rfl⟩ := hdelta.recoded_ofBinary64 hthen
  exact ⟨⟨.literal condition, y⟩, ⟨hcondition.recoded? hif, hy⟩, rfl⟩

/-- Recorded adjustments that went through text are recorded adjustments again. -/
theorem recodedItems_map_toJson {adjustments : List Adjustment} (h : ∀ adjustment ∈ adjustments, adjustment.IsRecordable)
    {read : List Json} (hread : Json.recodedItems? (adjustments.map toJson) = some read) :
    ∃ others : List Adjustment, (∀ other ∈ others, other.IsRecordable) ∧ others.map toJson = read := by
  induction adjustments generalizing read with
  | nil =>
    obtain rfl := Option.some.inj hread
    exact ⟨[], by simp, rfl⟩
  | cons adjustment adjustments ih =>
    obtain ⟨hfirst, hrest⟩ := List.forall_mem_cons.1 h
    simp only [List.map_cons, Json.recodedItems?, bind, Option.bind_eq_some_iff, pure, Option.some.injEq] at hread
    obtain ⟨first, hreadFirst, rest, hreadRest, rfl⟩ := hread
    obtain ⟨other, hother, rfl⟩ := hfirst.recoded_toJson hreadFirst
    obtain ⟨others, hothers, rfl⟩ := ih hrest hreadRest
    exact ⟨other :: others, List.forall_mem_cons.2 ⟨hother, hothers⟩, rfl⟩

end Adjustment

namespace PriceModel

variable {model : PriceModel}

/-- A model that can be recorded: its numbers are finite, its adjustments can be recorded, and its amounts per unit are
in key order. -/
structure IsRecordable (model : PriceModel) : Prop where
  basePrice : model.basePrice.IsFinite
  minPrice : model.minPrice.IsFinite
  adjustments : ∀ adjustment ∈ model.adjustments, adjustment.IsRecordable
  perUnit : ∀ member ∈ model.perUnit, member.2.IsFinite
  sorted : Members.Sorted model.perUnit

/-- The model that is read from its record. -/
def recovered (model : PriceModel) : PriceModel :=
  { model with adjustments := model.adjustments.map Adjustment.recovered }

/-- A model is read from its record. -/
theorem IsRecordable.ofJson?_toJson (h : model.IsRecordable) :
    reader.ofJson? model.toJson = some model.recovered := by
  have hadjustments : Reader.list Adjustment.reader (Json.array (model.adjustments.map Adjustment.toJson)).parsed =
      .ok (model.adjustments.map Adjustment.recovered) :=
    Reader.list_parsed fun adjustment hmem => (h.adjustments adjustment hmem).read_toJson
  have hperUnit := Reader.members_parsed h.sorted fun member hmem => (h.perUnit member hmem).read_ofBinary64
  have hread : reader model.toJson.parsed = .ok model.recovered :=
    RecordReader.Reads.read_eq
      (((((RecordReader.reads_required rfl h.basePrice.read_ofBinary64).map PriceModel.mk).seq
        (RecordReader.reads_defaulted rfl h.minPrice.read_ofBinary64)).seq
        (RecordReader.reads_defaulted rfl hadjustments)).seq
        (RecordReader.reads_defaulted rfl hperUnit)) (by simp)
  rw [Reader.ofJson?, hread]
  rfl

/-- What is read from a record is recorded alike. -/
theorem toJson_recovered (model : PriceModel) : model.recovered.toJson = model.toJson := by
  have hadjustment : ∀ adjustment : Adjustment, adjustment.recovered.toJson = adjustment.toJson := by
    intro adjustment
    rw [Adjustment.toJson, Adjustment.toJson, Adjustment.recovered, Condition.toJson_ofJson]
  have hmap : Adjustment.toJson ∘ Adjustment.recovered = Adjustment.toJson := funext hadjustment
  rw [toJson, toJson, recovered, List.map_map, hmap]

/-- What is read from the record of a model with faithful conditions gives the same prices. -/
theorem price_recovered (h : ∀ adjustment ∈ model.adjustments, adjustment.condition.IsFaithful) (answers : Answers) :
    model.recovered.price answers = model.price answers := by
  have hfilter : (model.adjustments.map Adjustment.recovered).filter (fun adjustment =>
        adjustment.condition.holds answers) =
      (model.adjustments.filter fun adjustment => adjustment.condition.holds answers).map Adjustment.recovered := by
    rw [List.filter_map]
    exact congrArg _ (List.filter_congr fun adjustment hmem => h adjustment hmem answers)
  have hadjusted : model.recovered.adjusted answers = model.adjusted answers := by
    rw [adjusted, adjusted, recovered, hfilter, List.foldl_map]
    rfl
  have htotal : model.recovered.total answers = model.total answers := by
    rw [total, total, hadjusted]
    rfl
  rw [price, price, htotal]
  rfl

/-- Amounts per unit that went through text are amounts under the same keys. -/
private theorem recodedMembers_perUnit {perUnit : Members Binary64} (h : ∀ member ∈ perUnit, member.2.IsFinite)
    {read : List (String × Json)}
    (hread : Json.recodedMembers? (perUnit.map fun member => (member.1, .ofBinary64 member.2)) = some read) :
    ∃ others : Members Binary64, (∀ other ∈ others, other.2.IsFinite) ∧
      others.map (fun member => (member.1, .ofBinary64 member.2)) = read ∧
      others.map Prod.fst = perUnit.map Prod.fst := by
  induction perUnit generalizing read with
  | nil =>
    obtain rfl := Option.some.inj hread
    exact ⟨[], by simp, rfl, rfl⟩
  | cons member rest ih =>
    obtain ⟨hfirst, hrest⟩ := List.forall_mem_cons.1 h
    simp only [List.map_cons, Json.recodedMembers?, bind, Option.bind_eq_some_iff, pure, Option.some.injEq] at hread
    obtain ⟨amount, hamount, others, hothers, rfl⟩ := hread
    obtain ⟨y, hy, rfl⟩ := hfirst.recoded_ofBinary64 hamount
    obtain ⟨others, hfinite, rfl, hkeys⟩ := ih hrest hothers
    exact ⟨(member.1, y) :: others, List.forall_mem_cons.2 ⟨hy, hfinite⟩, rfl, by simp [hkeys]⟩

/-- A recorded model that went through text is a recorded model again. -/
theorem IsRecordable.recoded_toJson (h : model.IsRecordable) {read : Json} (hread : model.toJson.recoded? = some read) :
    ∃ other : PriceModel, other.IsRecordable ∧ other.toJson = read := by
  simp only [toJson, Json.recoded?, Json.recodedMembers?, bind, Option.bind_eq_some_iff, Option.map_eq_some_iff, pure,
    Option.some.injEq] at hread
  obtain ⟨_, ⟨_, ⟨items, hitems, rfl⟩, _, ⟨base, hbase, _, ⟨least, hleast, _, ⟨_, ⟨amounts, hamounts, rfl⟩, _, rfl,
    rfl⟩, rfl⟩, rfl⟩, rfl⟩, rfl⟩ := hread
  obtain ⟨adjustments, hadjustments, rfl⟩ := Adjustment.recodedItems_map_toJson h.adjustments hitems
  obtain ⟨basePrice, hbasePrice, rfl⟩ := h.basePrice.recoded_ofBinary64 hbase
  obtain ⟨minPrice, hminPrice, rfl⟩ := h.minPrice.recoded_ofBinary64 hleast
  obtain ⟨perUnit, hperUnit, rfl, hkeys⟩ := recodedMembers_perUnit h.perUnit hamounts
  refine ⟨⟨basePrice, minPrice, adjustments, perUnit⟩, ⟨hbasePrice, hminPrice, hadjustments, hperUnit, ?_⟩, rfl⟩
  change (perUnit.map Prod.fst).Pairwise (· < ·)
  rw [hkeys]
  exact h.sorted

end PriceModel

namespace RuleBody

variable {value : Json} {adjustment : Adjustment}

/-- The conditions that a body gives to adjustments: one that is stored in it, null in the place of one, or the answer
to a question, alone or compared with an option. -/
inductive Gives (value : Json) : Condition → Prop
  | stored {condition : Json} (h : value.WellFormed → condition.WellFormed) : Gives value (.ofJson condition)
  | missing : Gives value (.unrecognized .null)
  | answer (field : String) : Gives value (.answer field)
  | option (field option : String) : Gives value (.answerEquals field (optionAnswer option))

/-- The answer that selects an option is no object. -/
theorem isObject_optionAnswer (option : String) : (optionAnswer option).isObject = false := by
  unfold optionAnswer
  split
  · rfl
  · split <;> rfl

/-- The answer that selects an option is well formed. -/
theorem wellFormed_optionAnswer (option : String) : (optionAnswer option).WellFormed := by
  unfold optionAnswer
  split
  · trivial
  · split <;> trivial

/-- Conditions of a well formed body stand for well formed values. -/
theorem Gives.wellFormed_toJson {condition : Condition} (h : Gives value condition) (hvalue : value.WellFormed) :
    condition.toJson.WellFormed := by
  cases h with
  | stored hstored =>
    rw [Condition.toJson_ofJson]
    exact hstored hvalue
  | missing => trivial
  | answer field => simp [Condition.toJson, Json.WellFormed, Json.MembersWellFormed, Members.Sorted]
  | option field option =>
    simp [Condition.answerEquals, Condition.toJson, Json.WellFormed, Json.MembersWellFormed, Json.ItemsWellFormed,
      Members.Sorted, wellFormed_optionAnswer]

/-- Conditions of a body are faithful. -/
theorem Gives.isFaithful {condition : Condition} (h : Gives value condition) : condition.IsFaithful := by
  cases h with
  | stored _ => exact Condition.isFaithful_ofJson _
  | missing => exact Condition.isFaithful_unrecognized_null
  | answer field => exact Condition.isFaithful_answer field
  | option field option => exact Condition.isFaithful_answerEquals (isObject_optionAnswer option)

/-- The adjustment of a listed entry. -/
private theorem gives_of_listedAdjustment? {entry : Json} (hentry : value.WellFormed → entry.WellFormed)
    (h : listedAdjustment? entry = some adjustment) : Gives value adjustment.condition ∧ adjustment.delta.IsFinite := by
  simp only [listedAdjustment?, bind, Option.bind_eq_some_iff, pure, Option.some.injEq] at h
  obtain ⟨_, -, delta, -, h⟩ := h
  cases hif : entry.get? "if" with
  | none =>
    rw [hif] at h
    obtain rfl := h
    exact ⟨.missing, delta, rfl⟩
  | some condition =>
    rw [hif] at h
    obtain rfl := h
    exact ⟨.stored fun hvalue => (hentry hvalue).get? hif, delta, rfl⟩

/-- The adjustments of a field. -/
private theorem gives_of_mem_fieldAdjustments {field : String} {definition : Json}
    (hmem : adjustment ∈ fieldAdjustments field definition) :
    Gives value adjustment.condition ∧ adjustment.delta.IsFinite := by
  unfold fieldAdjustments at hmem
  split at hmem
  · rw [List.mem_singleton.1 hmem]
    exact ⟨.answer field, _, rfl⟩
  · simp only [List.mem_filterMap, bind, Option.bind_eq_some_iff, pure, Option.some.injEq] at hmem
    obtain ⟨option, -, delta, -, rfl⟩ := hmem
    exact ⟨.option field option.1, delta, rfl⟩
  · cases hmem

/-- Listed adjustments are the entries of an array. -/
theorem get?_of_listed {entries : List Json} (h : (ofJson value).adjustments = .listed entries) :
    value.get? "adjustments" = some (.array entries) := by
  unfold ofJson at h
  split at h
  · next heq =>
    cases h
    exact heq
  · cases h
  · cases h

/-- The fields of adjustments by field are in key order. -/
theorem sorted_of_byField (hvalue : value.WellFormed) {fields : List (String × Json)}
    (h : (ofJson value).adjustments = .byField fields) : Members.Sorted fields := by
  unfold ofJson at h
  split at h
  · cases h
  · next heq =>
    cases h
    have hfields := hvalue.get? heq
    simp only [Json.WellFormed] at hfields
    exact hfields.1
  · cases h
    exact .nil

/-- Every adjustment of a body has one of the conditions that the body gives, and a finite delta. -/
theorem gives_of_mem_adjustments (hmem : adjustment ∈ (ofJson value).model.adjustments) :
    Gives value adjustment.condition ∧ adjustment.delta.IsFinite := by
  unfold model at hmem
  split at hmem
  · next entries hentries =>
    obtain ⟨entry, hentry, hadjustment⟩ := List.mem_filterMap.1 hmem
    refine gives_of_listedAdjustment? (fun hvalue => ?_) hadjustment
    have hitems : Json.ItemsWellFormed entries := by
      simpa [Json.WellFormed] using hvalue.get? (get?_of_listed hentries)
    exact Json.itemsWellFormed_iff.1 hitems entry hentry
  · obtain ⟨field, -, hfield⟩ := List.mem_flatMap.1 hmem
    exact gives_of_mem_fieldAdjustments hfield

/-- The model of a well formed body can be recorded. -/
theorem isRecordable_model (h : value.WellFormed) : (ofJson value).model.IsRecordable := by
  have hadjustments : ∀ adjustment ∈ (ofJson value).model.adjustments, adjustment.IsRecordable := fun adjustment hmem =>
    ⟨(gives_of_mem_adjustments hmem).1.wellFormed_toJson h, (gives_of_mem_adjustments hmem).2⟩
  refine ⟨⟨_, rfl⟩, ⟨_, rfl⟩, hadjustments, ?_, ?_⟩
  · intro member hmem
    unfold model at hmem
    split at hmem
    · cases hmem
    · simp only [List.mem_filterMap, bind, Option.bind_eq_some_iff, pure, Option.some.injEq] at hmem
      obtain ⟨field, -, amount, -, rfl⟩ := hmem
      exact ⟨amount, rfl⟩
  · unfold model
    split
    · exact .nil
    · next fields hfields =>
      refine Members.sorted_filterMap ?_ (sorted_of_byField h hfields)
      intro member kept hkept
      simp only [bind, Option.bind_eq_some_iff, pure, Option.some.injEq] at hkept
      obtain ⟨amount, -, rfl⟩ := hkept
      rfl

/-- The conditions of a body are faithful. -/
theorem isFaithful_of_mem_model :
    ∀ adjustment ∈ (ofJson value).model.adjustments, adjustment.condition.IsFaithful :=
  fun _ hmem => (gives_of_mem_adjustments hmem).1.isFaithful

end RuleBody

end TradeIn

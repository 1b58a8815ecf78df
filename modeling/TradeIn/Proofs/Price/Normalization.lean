import Mathlib.Data.List.Forall2
import TradeIn.Proofs.Price.Record

/-!
# Price models as rule bodies

A body that lists its adjustments loses nothing that makes sense: every entry with a numeric delta becomes one
adjustment, in the order of the entries, and its condition is written as it was stored. The record of a price model, as
a value in JSON, has the shape of such a body. Taking the model of the record gives the same record again, but without
the amounts per unit, which only a body with adjustments by field can have.
-/

namespace TradeIn.RuleBody

/-- Whether an entry of listed adjustments makes sense: it is an object with a numeric delta. -/
def hasDelta : Json → Bool
  | .object members =>
    match Members.get? members "then" with
    | some (.number _) => true
    | _ => false
  | _ => false

/-- The adjustment says what the entry says: its delta is the nearest binary64 number to the stored one, and its
condition is written as it is stored, or as null if there is none. -/
structure Restates (entry : Json) (adjustment : Adjustment) : Prop where
  delta : ∃ n, entry.get? "then" = some (.number n) ∧ adjustment.delta = .finite n.toFinite64
  condition : adjustment.condition.toJson = (entry.get? "if").getD .null

variable {entry body : Json} {entries : List Json} {adjustment : Adjustment}

/-- An entry that makes sense becomes an adjustment that says what it says. -/
theorem exists_listedAdjustment?_of_hasDelta (h : hasDelta entry = true) :
    ∃ adjustment, listedAdjustment? entry = some adjustment ∧ Restates entry adjustment := by
  unfold hasDelta at h
  split at h
  · next members =>
    split at h
    · next n hthen =>
      have hdelta : (Json.object members).get? "then" = some (.number n) := hthen
      cases hif : (Json.object members).get? "if" with
      | none =>
        refine ⟨⟨.unrecognized .null, .finite n.toFinite64⟩, ?_, ⟨n, hdelta, rfl⟩, ?_⟩
        · simp [listedAdjustment?, hdelta, hif, Json.finite?]
        · rw [hif]
          rfl
      | some condition =>
        refine ⟨⟨.ofJson condition, .finite n.toFinite64⟩, ?_, ⟨n, hdelta, rfl⟩, ?_⟩
        · simp [listedAdjustment?, hdelta, hif, Json.finite?]
        · rw [hif]
          exact Condition.toJson_ofJson condition
    · cases h
  · cases h

/-- Any other entry is left out. -/
theorem listedAdjustment?_of_not_hasDelta (h : hasDelta entry = false) : listedAdjustment? entry = none := by
  cases entry with
  | object members =>
    simp only [hasDelta] at h
    cases hthen : Members.get? members "then" with
    | none => simp [listedAdjustment?, Json.get?, hthen]
    | some delta =>
      cases delta with
      | number n => simp [hthen] at h
      | null | bool | string | array | object => simp [listedAdjustment?, Json.get?, hthen, Json.finite?]
  | null | bool | number | string | array => rfl

/-- The entries that make sense become the adjustments, in their order. -/
theorem forall₂_listedAdjustments (entries : List Json) :
    List.Forall₂ Restates (entries.filter hasDelta) (entries.filterMap listedAdjustment?) := by
  induction entries with
  | nil => exact .nil
  | cons entry entries ih =>
    cases h : hasDelta entry with
    | true =>
      obtain ⟨adjustment, hadjustment, hrestates⟩ := exists_listedAdjustment?_of_hasDelta h
      rw [List.filter_cons_of_pos h, List.filterMap_cons_some hadjustment]
      exact .cons hrestates ih
    | false =>
      rw [List.filter_cons_of_neg (by simp [h]), List.filterMap_cons_none (listedAdjustment?_of_not_hasDelta h)]
      exact ih

/-- A body with an array of adjustments lists them. -/
theorem adjustments_of_array (h : body.get? "adjustments" = some (.array entries)) :
    (ofJson body).adjustments = .listed entries := by
  simp [ofJson, h]

/-- The record of an adjustment is an entry that becomes the adjustment as it is read from the record. -/
theorem listedAdjustment?_toJson (h : adjustment.delta.IsFinite) :
    listedAdjustment? adjustment.toJson = some adjustment.recovered := by
  obtain ⟨condition, delta⟩ := adjustment
  obtain ⟨delta, rfl⟩ := h
  rfl

/-- The model of a record, taken as a body, is the recorded model as it is read, without amounts per unit. -/
theorem model_ofJson_toJson {recorded : PriceModel} (hbase : recorded.basePrice.IsFinite)
    (hleast : recorded.minPrice.IsFinite) (hdeltas : ∀ adjustment ∈ recorded.adjustments, adjustment.delta.IsFinite) :
    (ofJson recorded.toJson).model = { recorded.recovered with perUnit := [] } := by
  obtain ⟨base, least, adjustments, perUnit⟩ := recorded
  obtain ⟨base, rfl⟩ := hbase
  obtain ⟨least, rfl⟩ := hleast
  have hentries : (adjustments.map Adjustment.toJson).filterMap listedAdjustment? =
      adjustments.map Adjustment.recovered := by
    rw [List.filterMap_map]
    exact List.filterMap_eq_map_iff_forall_eq_some.2 fun adjustment hmem =>
      listedAdjustment?_toJson (hdeltas adjustment hmem)
  have hmodel : (ofJson (PriceModel.toJson ⟨.finite base, .finite least, adjustments, perUnit⟩)).model =
      ⟨.finite base, .finite least, (adjustments.map Adjustment.toJson).filterMap listedAdjustment?, []⟩ := rfl
  rw [hmodel, hentries]
  rfl

/-- A body that lists its adjustments becomes a model with one adjustment for each entry that makes sense, in the order
of the entries, and without amounts per unit. The record of the model of any value, taken as a body again, becomes a
model with the same record but for the amounts per unit, of which it has none. -/
theorem model_restates_and_projects (h : body.get? "adjustments" = some (.array entries)) (value : Json) :
    List.Forall₂ Restates (entries.filter hasDelta) (ofJson body).model.adjustments ∧
      (ofJson body).model.perUnit = [] ∧
      (ofJson (ofJson value).model.toJson).model.toJson =
        PriceModel.toJson { (ofJson value).model with perUnit := [] } := by
  have hlisted := adjustments_of_array h
  refine ⟨?_, ?_, ?_⟩
  · simp only [model, hlisted]
    exact forall₂_listedAdjustments entries
  · simp only [model, hlisted]
  · rw [model_ofJson_toJson ⟨_, rfl⟩ ⟨_, rfl⟩ fun _ hmem => (gives_of_mem_adjustments hmem).2]
    exact PriceModel.toJson_recovered { (ofJson value).model with perUnit := [] }

/-- A text, an entry whose delta is a text, one without a condition, and one with an unknown condition. -/
private def mixedEntries : List Json :=
  [.string "nope", .object [("if", .object [("var", .string "a")]), ("then", .string "ten")],
    .object [("then", .ofInt64 5)],
    .object [("if", .object [("not", .bool true)]), ("then", .ofInt64 (-7))]]

/-- Two of the four entries become adjustments, the first with null for a condition. -/
theorem model_restates_and_projects_mixed :
    (Json.object [("adjustments", .array mixedEntries)]).get? "adjustments" = some (.array mixedEntries) ∧
      ∃ first second, (ofJson (.object [("adjustments", .array mixedEntries)])).model.adjustments = [first, second] ∧
        first.condition.toJson = .null ∧ second.condition.toJson = .object [("not", .bool true)] := by
  have hentries :
      (Json.object [("adjustments", .array mixedEntries)]).get? "adjustments" = some (.array mixedEntries) := rfl
  have hrestates := (model_restates_and_projects hentries .null).1
  have hfilter : mixedEntries.filter hasDelta =
      [.object [("then", .ofInt64 5)],
        .object [("if", .object [("not", .bool true)]), ("then", .ofInt64 (-7))]] := by
    decide +kernel
  rw [hfilter] at hrestates
  obtain ⟨first, _, hfirst, hrest, hadjustments⟩ := List.forall₂_cons_left_iff.1 hrestates
  obtain ⟨second, _, hsecond, hnone, rfl⟩ := List.forall₂_cons_left_iff.1 hrest
  rw [List.forall₂_nil_left_iff.1 hnone] at hadjustments
  exact ⟨hentries, first, second, hadjustments, hfirst.condition, hsecond.condition⟩

end TradeIn.RuleBody

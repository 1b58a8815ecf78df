import TradeIn.Proofs.Number.Conversion
import TradeIn.Proofs.Quote.Computed

/-!
# Bounds of a price

The base price and the least price are the bounds of a price. A rule and the record of a price are checked in different
words, but both accept exactly the bounds below `2 ^ 63`; all of these have a decimal, so no price is computed from zero in
the place of a bound.
-/

namespace TradeIn

/-- A bound fits if it has a decimal and its magnitude is below `2 ^ 63`; the second is enough. -/
theorem Finite64.isRepresentable_iff (x : Finite64) : x.isRepresentable = true ↔ |x.value| < 2 ^ 63 := by
  have hbelow : x.belowTwoPow63 = true ↔ |x.value| < 2 ^ 63 := by
    rw [← x.rank_lt_iff 63]
    simp [belowTwoPow63]
  rw [isRepresentable, Bool.and_eq_true, hbelow, Decimal.isSome_ofFinite64?_iff]
  exact and_iff_left_of_imp fun h => h.trans (by norm_num)

namespace Binary64

/-- The number is finite and its magnitude is below `2 ^ 63`. -/
def Fits (bound : Binary64) : Prop := ∃ x, bound = .finite x ∧ |x.value| < 2 ^ 63

/-- The loops give the number a decimal, and that is its amount in a price. -/
def Converts (bound : Binary64) : Prop :=
  ∃ x d, bound = .finite x ∧ Decimal.byLoops? x = some d ∧ Decimal.ofAmount bound = d

variable {bound : Binary64}

/-- Only finite numbers can be bounds. -/
theorem isRepresentable_iff : bound.isRepresentable = true ↔ bound.Fits := by
  cases bound <;> simp [isRepresentable, finite?, Fits, Finite64.isRepresentable_iff]

/-- A bound that fits counts with its decimal. -/
theorem converts_of_isRepresentable (h : bound.isRepresentable = true) : bound.Converts := by
  obtain ⟨x, rfl, hx⟩ := isRepresentable_iff.1 h
  have hroom : |x.value| < 2 ^ 96 := hx.trans (by norm_num)
  obtain ⟨d, hd⟩ := Option.isSome_iff_exists.1 ((Decimal.isSome_ofFinite64?_iff x).2 hroom)
  refine ⟨x, d, rfl, (Decimal.byLoops?_eq x).trans hd, ?_⟩
  simp [Decimal.ofAmount, Decimal.ofBinary64?, finite?, hd]

end Binary64

namespace Json

/-- The member is a number whose binary64 number has a magnitude of `2 ^ 63` or more. -/
def Exceeds (member : Option Json) : Prop := ∃ n, member = some (.number n) ∧ 2 ^ 63 ≤ |n.toFinite64.value|

variable {member : Option Json}

/-- A member that is read as a number is one. -/
theorem bind_finite?_eq_some_iff {x : Finite64} :
    member.bind finite? = some x ↔ ∃ n, member = some (.number n) ∧ n.toFinite64 = x := by
  rcases member with _ | (_ | _ | n | _ | _ | _) <;> simp [finite?]

/-- A member that is not read as a number is none. -/
theorem bind_finite?_eq_none_iff : member.bind finite? = none ↔ ∀ n, member ≠ some (.number n) := by
  rcases member with _ | (_ | _ | n | _ | _ | _) <;> simp [finite?]

/-- A bound that is read from a member does not fit exactly when the member is a number that is too large. -/
theorem not_isRepresentable_getD_iff :
    ¬ ((member.bind finite?).getD .zero).isRepresentable = true ↔ Exceeds member := by
  cases hread : member.bind finite? with
  | none =>
    refine iff_of_false (not_not.2 (by decide)) fun ⟨n, hn, _⟩ => ?_
    exact bind_finite?_eq_none_iff.1 hread n hn
  | some x =>
    obtain ⟨n, rfl, rfl⟩ := bind_finite?_eq_some_iff.1 hread
    simp [Exceeds, Finite64.isRepresentable_iff]

end Json

namespace Quote

variable {rule : Rule} {answers : Answers} {error : PricingError}

/-- The ways in which a rule is refused. -/
theorem ofRule_eq_error_iff :
    Quote.ofRule rule answers = .error error ↔
      (error = .invalidRule rule.id "basePrice is missing or not a finite number" ∧
          ∀ n, rule.body.get? "basePrice" ≠ some (.number n)) ∨
        (error = .invalidRule rule.id "basePrice or minPrice is out of range" ∧
          (∃ n, rule.body.get? "basePrice" = some (.number n)) ∧
            (Json.Exceeds (rule.body.get? "basePrice") ∨ Json.Exceeds (rule.body.get? "minPrice"))) := by
  have hleast : ¬ (RuleBody.ofJson rule.body).minPrice.isRepresentable = true ↔ Json.Exceeds (rule.body.get? "minPrice") :=
    Json.not_isRepresentable_getD_iff
  rw [Quote.ofRule]
  cases hbase : (RuleBody.ofJson rule.body).basePrice? with
  | none =>
    have habsent : ∀ n, rule.body.get? "basePrice" ≠ some (.number n) := Json.bind_finite?_eq_none_iff.1 hbase
    simp [habsent, eq_comm]
  | some base =>
    obtain ⟨n, hn, hvalue⟩ := Json.bind_finite?_eq_some_iff.1 hbase
    change rule.body.get? "basePrice" = some (.number n) at hn
    have hlimit : ¬ base.isRepresentable = true ↔ Json.Exceeds (rule.body.get? "basePrice") := by
      rw [← Json.not_isRepresentable_getD_iff, hn]
      simp [Json.finite?, hvalue]
    have hpresent : ∃ n, rule.body.get? "basePrice" = some (.number n) := ⟨n, hn⟩
    have hnotAbsent : ¬ ∀ n, rule.body.get? "basePrice" ≠ some (.number n) := fun habsent => habsent n hn
    simp only [hpresent, hnotAbsent, ← hleast, ← hlimit, and_false, false_or, true_and]
    cases base.isRepresentable <;> cases (RuleBody.ofJson rule.body).minPrice.isRepresentable <;> simp [eq_comm]

end Quote

/-- The ways in which the record of a price is refused. -/
theorem RecomputeRequest.quote_eq_error_iff {request : RecomputeRequest} {error : PricingError} :
    request.quote = .error error ↔
      (error = .validation "ruleSnapshot.basePrice must be a finite number within range" ∧
          ¬ request.ruleSnapshot.basePrice.Fits) ∨
        (error = .validation "ruleSnapshot.minPrice must be a finite number within range" ∧
          request.ruleSnapshot.basePrice.Fits ∧ ¬ request.ruleSnapshot.minPrice.Fits) := by
  simp only [← Binary64.isRepresentable_iff]
  rw [RecomputeRequest.quote]
  cases request.ruleSnapshot.basePrice.isRepresentable <;> cases request.ruleSnapshot.minPrice.isRepresentable <;>
    simp [eq_comm]

namespace Quote

/-- Both bounds of a computed quote were checked. -/
theorem IsComputed.bounds_representable {answers : Answers} {quote : Quote} (h : quote.IsComputed answers) :
    quote.ruleSnapshot.basePrice.isRepresentable = true ∧ quote.ruleSnapshot.minPrice.isRepresentable = true := by
  cases h with
  | ofRule hquote =>
    obtain ⟨-, hbase, hleast, rfl⟩ := ofRule_eq_ok_iff.1 hquote
    exact ⟨hbase, hleast⟩
  | ofRecord hquote =>
    obtain ⟨hbase, hleast, rfl⟩ := RecomputeRequest.quote_eq_ok_iff.1 hquote
    exact ⟨hbase, hleast⟩

/-- A rule is refused exactly for a base price that is absent or no number, or for a bound that is too large; the record of
a price exactly for a bound that does not fit; and neither for anything else. Every bound that a price is computed from has
its decimal. A rule with a base price and the record of its own model are accepted together. -/
theorem bounds_validated (rule : Rule) (request : RecomputeRequest) (answers : Answers) :
    ((∃ reason, Quote.ofRule rule answers = .error (.invalidRule rule.id reason)) ↔
        (∀ n, rule.body.get? "basePrice" ≠ some (.number n)) ∨ Json.Exceeds (rule.body.get? "basePrice") ∨
          Json.Exceeds (rule.body.get? "minPrice")) ∧
      (∀ error, Quote.ofRule rule answers = .error error → ∃ reason, error = .invalidRule rule.id reason) ∧
      ((∃ message, request.quote = .error (.validation message)) ↔
        ¬ request.ruleSnapshot.basePrice.Fits ∨ ¬ request.ruleSnapshot.minPrice.Fits) ∧
      (∀ error, request.quote = .error error → ∃ message, error = .validation message) ∧
      (∀ quote : Quote, quote.IsComputed answers → quote.prelimPrice = quote.ruleSnapshot.price answers ∧
        quote.ruleSnapshot.basePrice.Converts ∧ quote.ruleSnapshot.minPrice.Converts) ∧
      ∀ n, rule.body.get? "basePrice" = some (.number n) →
        ((∃ quote, Quote.ofRule rule answers = .ok quote) ↔
          ∃ quote, RecomputeRequest.quote ⟨answers, rule.version, (RuleBody.ofJson rule.body).model⟩ = .ok quote) := by
  refine ⟨⟨?_, ?_⟩, ?_, ⟨?_, ?_⟩, ?_, ?_, ?_⟩
  · rintro ⟨reason, hrefused⟩
    obtain ⟨-, habsent⟩ | ⟨-, -, hlarge⟩ := ofRule_eq_error_iff.1 hrefused
    · exact .inl habsent
    · exact .inr hlarge
  · intro hbad
    by_cases habsent : ∀ n, rule.body.get? "basePrice" ≠ some (.number n)
    · exact ⟨_, ofRule_eq_error_iff.2 (.inl ⟨rfl, habsent⟩)⟩
    · have hpresent : ∃ n, rule.body.get? "basePrice" = some (.number n) := by simpa using habsent
      exact ⟨_, ofRule_eq_error_iff.2 (.inr ⟨rfl, hpresent, hbad.resolve_left habsent⟩)⟩
  · intro error hrefused
    obtain ⟨rfl, -⟩ | ⟨rfl, -⟩ := ofRule_eq_error_iff.1 hrefused <;> exact ⟨_, rfl⟩
  · rintro ⟨message, hrefused⟩
    obtain ⟨-, hbase⟩ | ⟨-, -, hleast⟩ := RecomputeRequest.quote_eq_error_iff.1 hrefused
    · exact .inl hbase
    · exact .inr hleast
  · intro hbad
    by_cases hbase : request.ruleSnapshot.basePrice.Fits
    · exact ⟨_, RecomputeRequest.quote_eq_error_iff.2 (.inr ⟨rfl, hbase, hbad.resolve_left (not_not.2 hbase)⟩)⟩
    · exact ⟨_, RecomputeRequest.quote_eq_error_iff.2 (.inl ⟨rfl, hbase⟩)⟩
  · intro error hrefused
    obtain ⟨rfl, -⟩ | ⟨rfl, -⟩ := RecomputeRequest.quote_eq_error_iff.1 hrefused <;> exact ⟨_, rfl⟩
  · intro quote hcomputed
    obtain ⟨hbase, hleast⟩ := hcomputed.bounds_representable
    exact ⟨hcomputed.eq_price.1, Binary64.converts_of_isRepresentable hbase, Binary64.converts_of_isRepresentable hleast⟩
  · intro n hn
    have hsome : (RuleBody.ofJson rule.body).basePrice?.isSome = true := by
      simp [RuleBody.basePrice?, RuleBody.ofJson, hn, Json.finite?]
    simp [ofRule_eq_ok_iff, RecomputeRequest.quote_eq_ok_iff, hsome]

end Quote

end TradeIn

import SchemaQuery.Proofs.Plan.Lowering
import SchemaQuery.Service.Translation

/-!
# Only validation rejects

The later stages of the pipeline have errors of their own, a dozen of them, and none can
occur: what validation lets through is planned, and the plan is emitted.

## Main statements

* `translate_of_validate` - an accepted query is translated.
* `translate_total` - the same, and every rejection is one of validation.
-/

namespace SchemaQuery

open Outcome

/-- A query that a registry rejects is not translated, for the same reason. -/
theorem translate_of_validate_error {registry : Registry} {query : Query} {e : ValidationError}
    (h : query.validate registry = .error e) :
    translate registry query = .error (.validation e) := by
  rw [translate, planAcross, h]
  rfl

/-- **A query that a registry accepts is planned and emitted**, and the translation consists
of the two results. -/
theorem translate_of_validate {registry : Registry} {query : Query}
    (h : query.validate registry = .ok ()) :
    ∃ plan emitted, Plan.ofQuery registry query = .ok plan ∧ Sql.emit plan = .ok emitted ∧
      translate registry query = .ok ⟨plan, emitted⟩ := by
  obtain ⟨plan, hplan, haggregates, hfilters⟩ := Plan.exists_ofQuery h
  obtain ⟨emitted, hemitted⟩ := Sql.exists_emit_iff.mpr ⟨haggregates, hfilters⟩
  refine ⟨plan, emitted, hplan, hemitted, ?_⟩
  rw [translate, planAcross, h, hplan]
  simp [Except.mapError, hemitted]

/-- A query that is translated was accepted, and the translation holds its plan. -/
theorem ofQuery_of_translate {registry : Registry} {query : Query} {t : Translation}
    (h : translate registry query = .ok t) :
    query.validate registry = .ok () ∧ Plan.ofQuery registry query = .ok t.plan := by
  cases hvalid : query.validate registry with
  | error e => cases (translate_of_validate_error hvalid).symm.trans h
  | ok =>
      obtain ⟨plan, emitted, hplan, -, htranslated⟩ := translate_of_validate hvalid
      obtain rfl := Except.ok.inj (htranslated.symm.trans h)
      exact ⟨rfl, hplan⟩

/-- A translation holds what its plan is emitted as. -/
theorem emit_of_translate {registry : Registry} {query : Query} {t : Translation}
    (h : translate registry query = .ok t) : Sql.emit t.plan = .ok t.emitted := by
  obtain ⟨hvalid, -⟩ := ofQuery_of_translate h
  obtain ⟨plan, emitted, -, hemitted, htranslated⟩ := translate_of_validate hvalid
  obtain rfl := Except.ok.inj (htranslated.symm.trans h)
  exact hemitted

/-- **No stage after validation can fail.**  What a registry accepts is planned against it and
emitted, so that the only errors of a translation are those of validation. -/
theorem translate_total (registry : Registry) (query : Query) :
    (query.validate registry = .ok () →
        ∃ plan emitted, Plan.ofQuery registry query = .ok plan ∧ Sql.emit plan = .ok emitted ∧
          translate registry query = .ok ⟨plan, emitted⟩) ∧
      ∀ error, translate registry query = .error error →
        ∃ offence, query.validate registry = .error offence ∧ error = .validation offence := by
  refine ⟨translate_of_validate, fun error herror => ?_⟩
  cases hvalid : query.validate registry with
  | error offence =>
      rw [translate_of_validate_error hvalid] at herror
      exact ⟨offence, rfl, (Except.error.inj herror).symm⟩
  | ok =>
      obtain ⟨plan, emitted, -, -, htranslated⟩ := translate_of_validate hvalid
      rw [htranslated] at herror
      cases herror

/-! ## A schema with one model -/

namespace Orders

open Json (Value)

/-- Orders with a status, an amount that sums accept, and a date. -/
def model : Model where
  name := ⟨"orders", by decide⟩
  table := ⟨some ⟨"sales", by decide⟩, ⟨"orders", by decide⟩⟩
  primaryKey := "status"
  fields :=
    ⟨[⟨⟨"status", by decide⟩, .string, false, true, true, false⟩,
        ⟨⟨"amount", by decide⟩, .decimal, false, true, true, true⟩,
        ⟨⟨"placed", by decide⟩, .date, true, true, true, false⟩], by decide⟩
  primaryKey_declared := by decide

/-- The registry of the one model. -/
def registry : Registry := ⟨⟨[model], by decide⟩, by decide⟩

/-- A query that uses every section, with a given text, range and number of rows. -/
def query (part : String) (placed : Value) (pagination : Option Pagination) : Query where
  model := "orders"
  fields := ["status"]
  filters := some (.and [⟨"status", "contains", some (.text part)⟩,
    ⟨"placed", "between", some placed⟩, ⟨"amount", "not_null", none⟩])
  groupBy := ["status"]
  aggregates := [⟨"sum", some "amount", "total"⟩, ⟨"count", none, "n"⟩]
  sort := [⟨"n", "desc"⟩, ⟨"status", ""⟩]
  pagination := pagination

end Orders

/-- The orders of a month are translated, and those of an unknown model are rejected by
validation. -/
theorem translate_total_orders :
    (∃ plan emitted,
      Plan.ofQuery Orders.registry (Orders.query "paid" (Sql.textRange "a" "b") none) = .ok plan ∧
        Sql.emit plan = .ok emitted ∧
        translate Orders.registry (Orders.query "paid" (Sql.textRange "a" "b") none) =
          .ok ⟨plan, emitted⟩) ∧
      ∃ offence, Query.validate Orders.registry { model := "invoices" } = .error offence ∧
        TranslationError.validation (.unknownModel "invoices") = .validation offence :=
  ⟨(translate_total Orders.registry _).1 (by decide),
    (translate_total Orders.registry { model := "invoices" }).2 _ (by rfl)⟩

end SchemaQuery

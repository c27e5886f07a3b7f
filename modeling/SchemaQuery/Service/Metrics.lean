import SchemaQuery.Numeric.Layout

/-!
# Metrics

Translations are counted by outcome, and their durations are collected in a histogram.  The
text form is the exposition format of Prometheus.  Counters have 64 bits and are shown in
double precision, so a count is shown exactly as long as doubles are exact.

## Main definitions

* `Outcome` - how a translation ended.
* `Histogram`, `Histogram.observe` - durations in seconds.
* `Metrics`, `Metrics.record` - both together.
* `Metrics.lines`, `Metrics.text` - the text form.
-/

namespace SchemaQuery

open Numeric (Binary64)

/-! ## Counting -/

/-- How a translation ended. -/
inductive Outcome where
  | ok
  | rejected
  | error
  deriving DecidableEq, Repr

/-- The label of an outcome. -/
def Outcome.label : Outcome → String
  | ok => "ok"
  | rejected => "rejected"
  | error => "error"

/-- The upper bounds of the buckets, in seconds. -/
def bucketBounds : List Binary64 :=
  [(1, -4), (25, -5), (5, -4), (1, -3), (25, -4), (5, -3), (1, -2), (5, -2)].filterMap
    fun (significand, power) => Binary64.ofDecimal? false ⟨significand, power⟩

/-- Observed durations.  A bucket counts the durations up to its bound. -/
structure Histogram where
  buckets : List (Binary64 × UInt64)
  count : UInt64
  /-- The sum of the durations; none once it is larger than every finite number. -/
  sum : Option Binary64

namespace Histogram

/-- The histogram without observations. -/
def empty : Histogram := ⟨bucketBounds.map fun bound => (bound, 0), 0, some (Binary64.zero false)⟩

/-- Observes a duration; a negative one counts as zero. -/
def observe (h : Histogram) (seconds : Binary64) : Histogram :=
  let seconds := if seconds.negative then Binary64.zero false else seconds
  { buckets := h.buckets.map fun (bound, n) => (bound, if seconds.le bound then n + 1 else n)
    count := h.count + 1
    sum := h.sum.bind (·.add? seconds) }

end Histogram

/-- The counters of the outcomes and the histogram of the durations.  There is no counter
before the first occurrence of its outcome. -/
structure Metrics where
  ok : Option UInt64
  rejected : Option UInt64
  error : Option UInt64
  durations : Histogram

namespace Metrics

/-- The metrics before the first translation. -/
def empty : Metrics := ⟨none, none, none, .empty⟩

/-- The counter of an outcome. -/
def count (m : Metrics) : Outcome → Option UInt64
  | .ok => m.ok
  | .rejected => m.rejected
  | .error => m.error

/-- A counter after one more occurrence. -/
def increment (counter : Option UInt64) : Option UInt64 := some (counter.getD 0 + 1)

/-- Records a translation. -/
def record (m : Metrics) (outcome : Outcome) (seconds : Binary64) : Metrics :=
  let durations := m.durations.observe seconds
  match outcome with
  | .ok => { m with ok := increment m.ok, durations }
  | .rejected => { m with rejected := increment m.rejected, durations }
  | .error => { m with error := increment m.error, durations }

@[simp] theorem durations_record (m : Metrics) (outcome : Outcome) (seconds : Binary64) :
    (m.record outcome seconds).durations = m.durations.observe seconds := by
  cases outcome <;> rfl

/-! ## The text form -/

/-- A measurement in text; none is larger than every finite number. -/
def valueText : Option Binary64 → String
  | some x => String.ofList x.plainText
  | none => "inf"

/-- A count in text, as the double nearest to it. -/
def countText (n : UInt64) : String := valueText (Binary64.ofRatio? false n.toNat 1)

/-- A label of a sample, in braces. -/
def labelText (name value : String) : String :=
  "\x7b" ++ name ++ "=\"" ++ value ++ "\"\x7d"

/-- The two lines that introduce a family of samples. -/
def header (family help type : String) : List String :=
  ["# HELP " ++ family ++ " " ++ help, "# TYPE " ++ family ++ " " ++ type]

/-- The name of the counter. -/
def counterFamily : String := "udv_queries_total"

/-- The name of the histogram. -/
def durationFamily : String := "udv_translate_duration_seconds"

/-- The line of a counter; an outcome that never occurred has none. -/
def counterLine? (m : Metrics) (outcome : Outcome) : Option String :=
  (m.count outcome).map fun n =>
    counterFamily ++ labelText "outcome" outcome.label ++ " " ++ countText n

/-- The lines of the counters, sorted by label; without any there is no header either. -/
def counterLines (m : Metrics) : List String :=
  match [Outcome.error, .ok, .rejected].filterMap m.counterLine? with
  | [] => []
  | lines => header counterFamily "Queries received, by outcome" "counter" ++ lines

/-- The line of a bucket, given the text of its bound. -/
def bucketLine (bound : String) (n : UInt64) : String :=
  durationFamily ++ "_bucket" ++ labelText "le" bound ++ " " ++ countText n

/-- The lines of the histogram. -/
def durationLines (h : Histogram) : List String :=
  header durationFamily "Time spent validating, planning and emitting a query" "histogram"
    ++ (h.buckets.map fun (bound, n) => bucketLine (String.ofList bound.plainText) n)
    ++ [bucketLine "+Inf" h.count,
      durationFamily ++ "_sum " ++ valueText h.sum,
      durationFamily ++ "_count " ++ countText h.count]

/-- The lines of the text form. -/
def lines (m : Metrics) : List String := m.counterLines ++ durationLines m.durations

/-- The text form; every line ends in a line feed. -/
def text (m : Metrics) : String := String.join (m.lines.map (· ++ "\n"))

end Metrics

end SchemaQuery

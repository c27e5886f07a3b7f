import Mathlib.Data.List.Basic
import SchemaQuery.Proofs.Json.Writing
import SchemaQuery.Proofs.Numeric.Whole
import SchemaQuery.Service.Metrics

/-!
# Reading the metrics

The text form of the metrics is read line by line: what stands before the first space of a
line is the name of a sample and what follows it is its value.  Nothing in a name or a value
is a space or a line feed by accident, so the samples that are read are those that were
written, in their order, and the lines that introduce a family are about no sample.  A count
is written as its digits, as long as it is one of the whole numbers that doubles hold without
gaps.

## Main definitions

* `Metrics.valuesIn` - the values that a text shows for a sample.
* `Metrics.samples` - the samples of metrics, each with its value.

## Main statements

* `Metrics.valuesIn_text` - **the text form of metrics shows their samples and no others.**
* `Metrics.valuesIn_outcome`, `Metrics.valuesIn_count`, `Metrics.valuesIn_infinite` - what it
  shows for an outcome, for the number of durations, and for the last bucket.
* `Metrics.countText_ofNat` - a count up to `2 ^ 53` is shown exactly.
-/

namespace SchemaQuery.Metrics

open Json (NumberText numberText_iff numberText_append numberText_positional)

/-! ## Reading a text -/

/-- The value on a line, if the line is about a sample. -/
def valueOn? (sample : String) (line : List Char) : Option String :=
  if line.takeWhile (· ≠ ' ') = sample.toList then
    some (String.ofList (line.dropWhile (· ≠ ' ')).tail)
  else none

/-- The values that a text shows for a sample, one for each line about it. -/
def valuesIn (text sample : String) : List String :=
  (text.toList.splitOn '\n').filterMap (valueOn? sample)

variable {sample : String}

/-- A line with a name, a space and a value is about the sample of that name. -/
theorem valueOn?_line {name value : String} (hname : ' ' ∉ name.toList) :
    valueOn? sample (name ++ " " ++ value).toList = if name = sample then some value else none := by
  have hblank : ∀ c ∈ name.toList, decide (c ≠ ' ') = true := fun c hc =>
    decide_eq_true fun h => hname (h ▸ hc)
  have hlist : (name ++ " " ++ value).toList = name.toList ++ ' ' :: value.toList := by
    simp [String.toList_append]
  rw [valueOn?, hlist, List.takeWhile_append_of_pos hblank, List.dropWhile_append_of_pos hblank]
  simp [String.ext_iff]

/-- Lines that are each ended by a line feed are read off one by one, and an empty one at
last. -/
theorem splitOn_join {lines : List String} (h : ∀ line ∈ lines, '\n' ∉ line.toList) :
    (String.join (lines.map (· ++ "\n"))).toList.splitOn '\n'
      = lines.map String.toList ++ [[]] := by
  induction lines with
  | nil => rfl
  | cons line rest ih =>
      obtain ⟨hline, hrest⟩ := List.forall_mem_cons.mp h
      have hlist : (String.join ((line :: rest).map (· ++ "\n"))).toList
          = line.toList ++ '\n' :: (String.join (rest.map (· ++ "\n"))).toList := by
        simp [String.toList_append]
      rw [hlist, List.splitOn_append_cons_self_of_not_mem hline, ih hrest]
      rfl

/-! ## The samples of metrics -/

/-- The sample of an outcome. -/
def outcomeSample (outcome : Outcome) : String :=
  counterFamily ++ labelText "outcome" outcome.label

/-- The sample of the bucket with a bound. -/
def bucketSample (bound : String) : String := durationFamily ++ "_bucket" ++ labelText "le" bound

/-- The sample of the sum of the durations. -/
def sumSample : String := durationFamily ++ "_sum"

/-- The sample of the number of durations. -/
def countSample : String := durationFamily ++ "_count"

/-- The samples of the outcomes that occurred. -/
def outcomeSamples (m : Metrics) : List (String × String) :=
  [Outcome.error, .ok, .rejected].filterMap fun outcome =>
    (m.count outcome).map fun n => (outcomeSample outcome, countText n)

/-- The samples of the durations. -/
def durationSamples (h : Histogram) : List (String × String) :=
  (h.buckets.map fun (bound, n) => (bucketSample (String.ofList bound.plainText), countText n))
    ++ [(bucketSample "+Inf", countText h.count),
      (sumSample, valueText h.sum), (countSample, countText h.count)]

/-- The samples of metrics in their order, each with its value. -/
def samples (m : Metrics) : List (String × String) :=
  m.outcomeSamples ++ durationSamples m.durations

/-- The line of a sample. -/
def sampleLine (entry : String × String) : String := entry.1 ++ " " ++ entry.2

theorem counterLines_eq (m : Metrics) :
    m.counterLines = (if m.outcomeSamples = [] then []
        else header counterFamily "Queries received, by outcome" "counter")
      ++ m.outcomeSamples.map sampleLine := by
  have hlines : [Outcome.error, .ok, .rejected].filterMap m.counterLine?
      = m.outcomeSamples.map sampleLine := by
    have hline (outcome : Outcome) : m.counterLine? outcome
        = ((m.count outcome).map fun n => (outcomeSample outcome, countText n)).map sampleLine := by
      rw [counterLine?, Option.map_map]
      rfl
    rw [outcomeSamples, List.map_filterMap, funext hline]
  rw [counterLines, hlines]
  cases m.outcomeSamples <;> rfl

theorem durationLines_eq (h : Histogram) :
    durationLines h
      = header durationFamily "Time spent validating, planning and emitting a query" "histogram"
        ++ (durationSamples h).map sampleLine := by
  simp [durationLines, durationSamples, sampleLine, bucketLine, bucketSample, sumSample,
    countSample, String.append_assoc]

/-! ## Names and values are plain -/

theorem numberText_plainText (x : Numeric.Binary64) :
    NumberText (String.ofList x.plainText).toList := by
  rw [String.toList_ofList]
  refine numberText_append.mpr ⟨?_, numberText_positional _⟩
  unfold Numeric.Binary64.sign
  split_ifs <;> decide

/-- A text without spaces and line feeds. -/
def IsWord (s : String) : Prop := s.toList.all (fun c => c != ' ' && c != '\n') = true

instance (s : String) : Decidable (IsWord s) := inferInstanceAs (Decidable (_ = true))

theorem isWord_iff {s : String} : IsWord s ↔ ∀ c ∈ s.toList, c ≠ ' ' ∧ c ≠ '\n' := by
  simp [IsWord]

theorem IsWord.append {s t : String} (hs : IsWord s) (ht : IsWord t) : IsWord (s ++ t) := by
  rw [isWord_iff, String.toList_append]
  exact List.forall_mem_append.mpr ⟨isWord_iff.mp hs, isWord_iff.mp ht⟩

theorem isWord_of_numberText {s : String} (h : NumberText s.toList) : IsWord s := by
  have hblank : Json.isNumberChar ' ' = false ∧ Json.isNumberChar '\n' = false := by decide
  refine isWord_iff.mpr fun c hc => ?_
  have hnumber : Json.isNumberChar c = true := numberText_iff.mp h c hc
  refine ⟨?_, ?_⟩
  · rintro rfl
    exact absurd hnumber (by simp [hblank.1])
  · rintro rfl
    exact absurd hnumber (by simp [hblank.2])

theorem isWord_bucketSample {bound : String} (h : IsWord bound) : IsWord (bucketSample bound) := by
  have hfront : IsWord (durationFamily ++ "_bucket") := by decide
  have hlabel : IsWord ("\x7b" ++ "le" ++ "=\"") := by decide
  have hclosing : IsWord "\"\x7d" := by decide
  exact hfront.append ((hlabel.append h).append hclosing)

theorem isWord_valueText (x : Option Numeric.Binary64) : IsWord (valueText x) := by
  cases x with
  | none => exact (by decide : IsWord "inf")
  | some x => exact isWord_of_numberText (numberText_plainText x)

/-- **Neither the name nor the value of a sample breaks its line.** -/
theorem isWord_of_mem_samples (m : Metrics) :
    ∀ entry ∈ m.samples, IsWord entry.1 ∧ IsWord entry.2 := by
  have hcount (n : UInt64) : IsWord (countText n) := isWord_valueText _
  have hplain (x : Numeric.Binary64) : IsWord (String.ofList x.plainText) :=
    isWord_of_numberText (numberText_plainText x)
  intro entry hentry
  rcases List.mem_append.mp hentry with hentry | hentry
  · obtain ⟨outcome, -, hentry⟩ := List.mem_filterMap.mp hentry
    have hname : ∀ outcome, IsWord (outcomeSample outcome) := by
      intro outcome
      cases outcome <;> decide
    obtain ⟨n, -, rfl⟩ := Option.map_eq_some_iff.mp hentry
    exact ⟨hname outcome, hcount n⟩
  · rcases List.mem_append.mp hentry with hentry | hentry
    · obtain ⟨⟨bound, n⟩, -, rfl⟩ := List.mem_map.mp hentry
      exact ⟨isWord_bucketSample (hplain bound), hcount n⟩
    · have hsum : IsWord sumSample := by decide
      have hnumber : IsWord countSample := by decide
      have hinfinite : IsWord (bucketSample "+Inf") := by decide
      simp only [List.mem_cons, List.not_mem_nil, or_false] at hentry
      rcases hentry with rfl | rfl | rfl
      · exact ⟨hinfinite, hcount _⟩
      · exact ⟨hsum, isWord_valueText _⟩
      · exact ⟨hnumber, hcount _⟩

/-! ## What a text shows -/

/-- A line that introduces a family is about no sample. -/
theorem valueOn?_header (hsample : sample ≠ "#") (family help type : String) :
    ∀ line ∈ header family help type, valueOn? sample line.toList = none := by
  have hcomment (text : String) : valueOn? sample ("#" ++ " " ++ text).toList = none := by
    rw [valueOn?_line (by decide), if_neg hsample.symm]
  intro line hline
  simp only [header, List.mem_cons, List.not_mem_nil, or_false] at hline
  rcases hline with rfl | rfl
  · have hsplit : "# HELP " ++ family ++ " " ++ help
        = "#" ++ " " ++ ("HELP " ++ family ++ " " ++ help) := by
      simp [← String.append_assoc]
    rw [hsplit]
    exact hcomment _
  · have hsplit : "# TYPE " ++ family ++ " " ++ type
        = "#" ++ " " ++ ("TYPE " ++ family ++ " " ++ type) := by
      simp [← String.append_assoc]
    rw [hsplit]
    exact hcomment _

/-- The lines of the text form are those of the samples and lines that introduce them. -/
theorem exists_lines_eq (m : Metrics) : ∃ first second,
    m.lines = (first ++ m.outcomeSamples.map sampleLine)
        ++ (second ++ (durationSamples m.durations).map sampleLine) ∧
      (∀ line ∈ first ++ second, '\n' ∉ line.toList) ∧
      ∀ {sample : String}, sample ≠ "#" →
        ∀ line ∈ first ++ second, valueOn? sample line.toList = none := by
  refine ⟨if m.outcomeSamples = [] then []
      else header counterFamily "Queries received, by outcome" "counter",
    header durationFamily "Time spent validating, planning and emitting a query" "histogram",
    by rw [lines, counterLines_eq, durationLines_eq], ?_, fun hsample => ?_⟩
  · rw [List.forall_mem_append]
    refine ⟨?_, by decide⟩
    split_ifs <;> decide
  · rw [List.forall_mem_append]
    refine ⟨?_, valueOn?_header hsample _ _ _⟩
    split_ifs
    · exact fun line hline => absurd hline List.not_mem_nil
    · exact valueOn?_header hsample _ _ _

/-- No line of the text form is broken. -/
theorem linefeed_notMem_lines (m : Metrics) : ∀ line ∈ m.lines, '\n' ∉ line.toList := by
  have hsample : ∀ entry ∈ m.samples, '\n' ∉ (sampleLine entry).toList := by
    intro entry hentry
    obtain ⟨hname, hvalue⟩ := isWord_of_mem_samples m entry hentry
    have hblank : '\n' ∉ " ".toList := by decide
    simp only [sampleLine, String.toList_append, List.mem_append, not_or]
    exact ⟨⟨fun hc => (isWord_iff.mp hname _ hc).2 rfl, hblank⟩,
      fun hc => (isWord_iff.mp hvalue _ hc).2 rfl⟩
  obtain ⟨first, second, hlines, hbreak, -⟩ := exists_lines_eq m
  obtain ⟨hfirst, hsecond⟩ := List.forall_mem_append.mp hbreak
  obtain ⟨houtcomes, hdurations⟩ := List.forall_mem_append.mp hsample
  rw [hlines]
  simp only [List.forall_mem_append, List.forall_mem_map]
  exact ⟨⟨hfirst, houtcomes⟩, hsecond, hdurations⟩

/-- **The text form of metrics shows their samples and no others.** -/
theorem valuesIn_text (m : Metrics) (hcomment : sample ≠ "#") (hne : sample ≠ "") :
    valuesIn m.text sample
      = m.samples.filterMap fun entry => if entry.1 = sample then some entry.2 else none := by
  have hempty : valueOn? sample [] = none := by
    rw [valueOn?, if_neg]
    simpa using hne.symm
  have hsample : ∀ entry ∈ m.samples, valueOn? sample (sampleLine entry).toList
      = if entry.1 = sample then some entry.2 else none := fun entry hentry =>
    valueOn?_line fun hc => (isWord_iff.mp (isWord_of_mem_samples m entry hentry).1 _ hc).1 rfl
  have hread : ∀ entries ⊆ m.samples,
      (entries.map sampleLine).filterMap (fun line => valueOn? sample line.toList)
        = entries.filterMap fun entry => if entry.1 = sample then some entry.2 else none := by
    intro entries hsub
    rw [List.filterMap_map]
    exact List.filterMap_congr fun entry hentry => hsample entry (hsub hentry)
  obtain ⟨first, second, hlines, -, hsilent⟩ := exists_lines_eq m
  obtain ⟨hfirst, hsecond⟩ := List.forall_mem_append.mp (hsilent hcomment)
  have hall : m.lines.filterMap (fun line => valueOn? sample line.toList)
      = m.samples.filterMap fun entry => if entry.1 = sample then some entry.2 else none := by
    rw [hlines, List.filterMap_append, List.filterMap_append, List.filterMap_append,
      List.filterMap_eq_nil_iff.mpr hfirst, List.filterMap_eq_nil_iff.mpr hsecond,
      List.nil_append, List.nil_append, hread _ (List.subset_append_left _ _),
      hread _ (List.subset_append_right _ _), samples, List.filterMap_append]
  rw [valuesIn, text, splitOn_join m.linefeed_notMem_lines, List.filterMap_append,
    List.filterMap_cons, hempty, List.filterMap_nil, List.append_nil, List.filterMap_map]
  exact hall

/-! ## Single samples -/

theorem bucketSample_inj {bound bound' : String} :
    bucketSample bound = bucketSample bound' ↔ bound = bound' := by
  simp [bucketSample, labelText, String.ext_iff, String.toList_append]

theorem bucketSample_ne_countSample (bound : String) : bucketSample bound ≠ countSample := by
  simp [bucketSample, countSample, String.ext_iff, String.toList_append]

theorem outcomeSample_inj {outcome outcome' : Outcome} :
    outcomeSample outcome = outcomeSample outcome' ↔ outcome = outcome' := by
  cases outcome <;> cases outcome' <;> decide

/-- The samples of durations belong to another family than those of outcomes. -/
theorem outcomeSample_ne {h : Histogram} {entry : String × String}
    (hentry : entry ∈ durationSamples h) (outcome : Outcome) :
    entry.1 ≠ outcomeSample outcome := by
  have hfamily : ∃ rest, entry.1 = durationFamily ++ rest := by
    rcases List.mem_append.mp hentry with hentry | hentry
    · obtain ⟨⟨bound, n⟩, -, rfl⟩ := List.mem_map.mp hentry
      exact ⟨_, String.append_assoc⟩
    · simp only [List.mem_cons, List.not_mem_nil, or_false] at hentry
      rcases hentry with rfl | rfl | rfl
      · exact ⟨_, String.append_assoc⟩
      · exact ⟨_, rfl⟩
      · exact ⟨_, rfl⟩
  obtain ⟨rest, hname⟩ := hfamily
  rw [hname]
  intro heq
  have hletter := congrArg (fun s : String => s.toList[4]?) heq
  simp [outcomeSample, String.toList_append, counterFamily, durationFamily] at hletter

/-- The text form shows how often an outcome occurred; one that never did is not shown. -/
theorem valuesIn_outcome (m : Metrics) (outcome : Outcome) :
    valuesIn m.text (outcomeSample outcome)
      = ((m.count outcome).map countText).toList := by
  have hdurations : (durationSamples m.durations).filterMap
      (fun entry => if entry.1 = outcomeSample outcome then some entry.2 else none) = [] :=
    List.filterMap_eq_nil_iff.mpr fun entry hentry => if_neg (outcomeSample_ne hentry outcome)
  have hplain : outcomeSample outcome ≠ "#" ∧ outcomeSample outcome ≠ "" := by
    cases outcome <;> decide
  have hoccurred (other : Outcome) :
      ((m.count other).map fun n => (outcomeSample other, countText n)).bind
          (fun entry => if entry.1 = outcomeSample outcome then some entry.2 else none)
        = if other = outcome then (m.count outcome).map countText else none := by
    by_cases h : other = outcome
    · subst h
      cases m.count other <;> simp
    · cases m.count other <;> simp [outcomeSample_inj, h]
  rw [valuesIn_text m hplain.1 hplain.2, samples, List.filterMap_append, hdurations,
    List.append_nil, outcomeSamples, List.filterMap_filterMap, funext hoccurred]
  cases outcome <;> cases m.count _ <;> rfl

/-- A sample of the durations that is no bucket with a finite bound is shown where it
stands. -/
theorem valuesIn_of_ne (m : Metrics) (hplain : sample ≠ "#" ∧ sample ≠ "")
    (houtcome : ∀ outcome, outcomeSample outcome ≠ sample)
    (hbucket : ∀ bound : Numeric.Binary64, bucketSample (String.ofList bound.plainText) ≠ sample) :
    valuesIn m.text sample
      = [(bucketSample "+Inf", countText m.durations.count),
          (sumSample, valueText m.durations.sum),
          (countSample, countText m.durations.count)].filterMap
            fun entry => if entry.1 = sample then some entry.2 else none := by
  have houtcomes : m.outcomeSamples.filterMap
      (fun entry => if entry.1 = sample then some entry.2 else none) = [] := by
    refine List.filterMap_eq_nil_iff.mpr fun entry hentry => ?_
    obtain ⟨outcome, -, hentry⟩ := List.mem_filterMap.mp hentry
    obtain ⟨n, -, rfl⟩ := Option.map_eq_some_iff.mp hentry
    exact if_neg (houtcome outcome)
  have hbuckets : (m.durations.buckets.map fun (bound, n) =>
      (bucketSample (String.ofList bound.plainText), countText n)).filterMap
        (fun entry => if entry.1 = sample then some entry.2 else none) = [] := by
    refine List.filterMap_eq_nil_iff.mpr fun entry hentry => ?_
    obtain ⟨⟨bound, n⟩, -, rfl⟩ := List.mem_map.mp hentry
    exact if_neg (hbucket bound)
  rw [valuesIn_text m hplain.1 hplain.2, samples, durationSamples, List.filterMap_append,
    List.filterMap_append, houtcomes, hbuckets, List.nil_append, List.nil_append]

/-- The text form shows the number of durations. -/
theorem valuesIn_count (m : Metrics) :
    valuesIn m.text countSample = [countText m.durations.count] := by
  have hinfinite : bucketSample "+Inf" ≠ countSample := by decide
  have hsum : sumSample ≠ countSample := by decide
  rw [m.valuesIn_of_ne (by decide) (fun outcome => by cases outcome <;> decide) fun bound =>
    bucketSample_ne_countSample _]
  simp [hinfinite, hsum]

/-- The text form shows the number of durations as the last bucket, which has no bound. -/
theorem valuesIn_infinite (m : Metrics) :
    valuesIn m.text (bucketSample "+Inf") = [countText m.durations.count] := by
  have hsum : sumSample ≠ bucketSample "+Inf" := by decide
  have hcount : countSample ≠ bucketSample "+Inf" := by decide
  have hfinite (bound : Numeric.Binary64) : String.ofList bound.plainText ≠ "+Inf" := by
    intro heq
    have hnumber := numberText_plainText bound
    rw [heq] at hnumber
    exact absurd hnumber (by decide)
  rw [m.valuesIn_of_ne (by decide) (fun outcome => by cases outcome <;> decide) fun bound heq =>
    hfinite bound (bucketSample_inj.mp heq)]
  simp [hsum, hcount]

/-! ## Counts -/

/-- **A count up to `2 ^ 53` is shown exactly.** -/
theorem countText_ofNat {n : Nat} (hle : n ≤ 2 ^ 53) :
    countText (UInt64.ofNat n) = String.ofList (Numeric.decimalText n) := by
  have hfits : (UInt64.ofNat n).toNat = n :=
    UInt64.toNat_ofNat_of_lt (Nat.lt_of_le_of_lt hle (by decide))
  obtain ⟨x, hx, htext⟩ := Numeric.Binary64.plainText_ofRatio? hle
  rw [countText, hfits, hx, valueText, htext]

end SchemaQuery.Metrics

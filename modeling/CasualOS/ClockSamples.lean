import Mathlib.Data.Rat.Cast.Order
import CasualOS.Lib.Averages
import CasualOS.Lib.SortedLists

/-! The offset between two clocks, from samples of how long messages take. -/

namespace CasualOS.ClockSamples

open Averages SortedLists
open List (append_nil length_map map_append map_singleton mem_map)

/-! ### Samples -/

structure TimeSample where
  clientRequestTime : ℚ
  serverReceiveTime : ℚ
  serverTransmitTime : ℚ
  currentTime : ℚ

structure TimeSampleNode extends TimeSample where
  latency : ℚ
  offset : ℚ

namespace TimeSample

variable (sample : TimeSample)

def latency : ℚ :=
  let roundTripTime := (sample.currentTime - sample.clientRequestTime) -
    (sample.serverTransmitTime - sample.serverReceiveTime)
  roundTripTime / 2

def offset : ℚ := sample.serverTransmitTime - sample.currentTime + sample.latency

def node : TimeSampleNode := { sample with latency := sample.latency, offset := sample.offset }

end TimeSample

/-! ### The source -/

inductive Value where
  | nan
  | negativeInfinity
  | number (value : ℚ)
  deriving DecidableEq

/-- A standard deviation is kept as its square. -/
structure TimeSync where
  offsetMS : Value
  offsetSpreadMS : Value
  calculatedTimeLatencyMS : Value
  averageLatencyMS : ℚ
  numIncludedSamples : Nat
  numPreservedSamples : Nat
  numTotalSamples : Nat
  totalLatencyMS : ℚ
  sampleStandardDeviation : Option ℚ
  samples : List TimeSampleNode

def maxIncludedSamples : Nat := 10

def minSamplesForStandardDeviation : Nat := 5

def TimeSync.new : TimeSync :=
  { offsetMS := .nan, offsetSpreadMS := .nan, calculatedTimeLatencyMS := .number 0, averageLatencyMS := 0
    numIncludedSamples := 0, numPreservedSamples := 0, numTotalSamples := 0, totalLatencyMS := 0
    sampleStandardDeviation := none, samples := [] }

/-- The sums over the samples that are included. -/
structure Included where
  includedSamples : Nat
  sumOfSampleOffsets : ℚ
  sumOfSampleLatencies : ℚ
  largestOffset : Option ℚ
  smallestOffset : Option ℚ

namespace Included

def empty : Included :=
  { includedSamples := 0, sumOfSampleOffsets := 0, sumOfSampleLatencies := 0
    largestOffset := none, smallestOffset := none }

def add (included : Included) (sample : TimeSampleNode) : Included :=
  { includedSamples := included.includedSamples + 1
    sumOfSampleOffsets := included.sumOfSampleOffsets + sample.offset
    sumOfSampleLatencies := included.sumOfSampleLatencies + sample.latency
    largestOffset := match included.largestOffset with
      | none => some sample.offset
      | some largest => some (if sample.offset > largest then sample.offset else largest)
    smallestOffset := match included.smallestOffset with
      | none => some sample.offset
      | some smallest => some (if sample.offset < smallest then sample.offset else smallest) }

def spread (included : Included) : Value :=
  match included.largestOffset, included.smallestOffset with
  | some largest, some smallest => .number (largest - smallest)
  | _, _ => .negativeInfinity

end Included

def isIncluded (averageLatencyMS : ℚ) (standardDeviation : Option ℚ) (sample : TimeSampleNode) : Bool :=
  match standardDeviation with
  | none => true
  | some variance =>
    (averageLatencyMS - sample.latency) * (averageLatencyMS - sample.latency) < variance

def includeSamples (averageLatencyMS : ℚ) (standardDeviation : Option ℚ) (samples : List TimeSampleNode) : Included :=
  samples.foldl
    (fun included sample =>
      if isIncluded averageLatencyMS standardDeviation sample then included.add sample else included)
    Included.empty

namespace TimeSync

variable (sync : TimeSync)

def count (latency : ℚ) : TimeSync :=
  { sync with
    numTotalSamples := sync.numTotalSamples + 1
    totalLatencyMS := sync.totalLatencyMS + latency
    averageLatencyMS := (sync.totalLatencyMS + latency) / (sync.numTotalSamples + 1 : Nat) }

/-- The samples without the last of too many. -/
def preserve (samples : List TimeSampleNode) : TimeSync :=
  let preserved := if samples.length > maxIncludedSamples then samples.dropLast else samples
  { sync with
    samples := preserved
    numPreservedSamples := preserved.length
    sampleStandardDeviation :=
      if preserved.length ≥ minSamplesForStandardDeviation then
        let sampleDeviations := preserved.foldl
          (fun sum sample =>
            sum + (sample.latency - sync.averageLatencyMS) * (sample.latency - sync.averageLatencyMS)) 0
        some (sampleDeviations / ((preserved.length : ℚ) - 1))
      else sync.sampleStandardDeviation }

def calculate : TimeSync :=
  let included := includeSamples sync.averageLatencyMS sync.sampleStandardDeviation sync.samples
  { sync with
    numIncludedSamples := included.includedSamples
    offsetSpreadMS := included.spread
    offsetMS :=
      if included.includedSamples > 0 then .number (included.sumOfSampleOffsets / included.includedSamples)
      else .nan
    calculatedTimeLatencyMS :=
      if included.includedSamples > 0 then .number (included.sumOfSampleLatencies / included.includedSamples)
      else .nan }

/-- The index is where the latency goes in the latencies that are kept. -/
def addSample (sortedIndexBy : List ℚ → ℚ → Nat) (sample : TimeSample) : TimeSync :=
  let sync := sync.count sample.latency
  let insertIndex := sortedIndexBy (sync.samples.map TimeSampleNode.latency) sample.latency
  if insertIndex ≥ sync.samples.length ∧ sync.samples.length ≥ maxIncludedSamples then sync
  else (sync.preserve (sync.samples.insertIdx insertIndex sample.node)).calculate

def addSamples (sortedIndexBy : List ℚ → ℚ → Nat) (samples : List TimeSample) : TimeSync :=
  samples.foldl (fun sync sample => sync.addSample sortedIndexBy sample) TimeSync.new

end TimeSync

/-! ### What is right -/

/-- A sample of a clock with the offset, by messages that took as long to the server as back. -/
def Symmetric (clockOffset : ℚ) (sample : TimeSample) : Prop :=
  ∃ time, sample.serverReceiveTime = sample.clientRequestTime + time + clockOffset ∧
    sample.currentTime = sample.serverTransmitTime - clockOffset + time

structure Right (samples : List TimeSample) (sync : TimeSync) : Prop where
  included : 1 ≤ sync.numIncludedSamples
  between : ∃ offset, sync.offsetMS = .number offset ∧
    (∃ low ∈ sync.samples, low.offset ≤ offset) ∧ ∃ high ∈ sync.samples, offset ≤ high.offset
  smallest : sync.samples.map TimeSampleNode.latency =
    smallest maxIncludedSamples (samples.map TimeSample.latency)
  constant : ∀ clockOffset, (∀ sample ∈ samples, Symmetric clockOffset sample) → sync.offsetMS = .number clockOffset

/-- At least five equal latencies, and after them only larger ones that find ten kept. -/
def Flat (latencies : List ℚ) : Prop :=
  ∃ latency count later, latencies = List.replicate count latency ++ later ∧
    minSamplesForStandardDeviation ≤ count ∧ (∀ other ∈ later, latency < other) ∧
    (later = [] ∨ maxIncludedSamples ≤ count)

/-! ### What the loops compute -/

theorem foldl_sum {A : Type} (value : A → ℚ) (list : List A) (start : ℚ) :
    list.foldl (fun sum a => sum + value a) start = start + (list.map value).sum := by
  induction list generalizing start with
  | nil => exact (add_zero start).symm
  | cons a rest ih => rw [List.foldl_cons, ih, List.map_cons, List.sum_cons, add_assoc]

theorem foldl_add (samples : List TimeSampleNode) (start : Included) :
    (samples.foldl Included.add start).includedSamples = start.includedSamples + samples.length ∧
      (samples.foldl Included.add start).sumOfSampleOffsets =
        start.sumOfSampleOffsets + (samples.map TimeSampleNode.offset).sum := by
  induction samples generalizing start with
  | nil => exact ⟨rfl, (add_zero _).symm⟩
  | cons sample rest ih =>
    obtain ⟨count, sum⟩ := ih (start.add sample)
    rw [List.foldl_cons, count, sum, List.map_cons, List.sum_cons, List.length_cons]
    exact ⟨by rw [Nat.add_comm rest.length, ← Nat.add_assoc]; rfl, add_assoc _ _ _⟩

theorem includeSamples_eq (average : ℚ) (deviation : Option ℚ) (samples : List TimeSampleNode) :
    (includeSamples average deviation samples).includedSamples =
        (samples.filter (isIncluded average deviation)).length ∧
      (includeSamples average deviation samples).sumOfSampleOffsets =
        ((samples.filter (isIncluded average deviation)).map TimeSampleNode.offset).sum := by
  have loop : includeSamples average deviation samples =
      (samples.filter (isIncluded average deviation)).foldl Included.add Included.empty := by
    rw [List.foldl_filter]
    rfl
  obtain ⟨count, sum⟩ := foldl_add (samples.filter (isIncluded average deviation)) Included.empty
  rw [loop, count, sum]
  exact ⟨Nat.zero_add _, zero_add _⟩

/-! ### When nothing is included -/

variable {latencies : List ℚ} {samples : List TimeSample} {sortedIndexBy : List ℚ → ℚ → Nat} {sync : TimeSync}

theorem left_out_iff {samples : List TimeSampleNode} {average : ℚ}
    (kept : samples.map TimeSampleNode.latency = smallest maxIncludedSamples latencies)
    (many : minSamplesForStandardDeviation ≤ samples.length)
    (mean : latencies.sum = latencies.length * average) :
    samples.filter (isIncluded average
        (some (deviations average (samples.map TimeSampleNode.latency) / ((samples.length : ℚ) - 1)))) = [] ↔
      ∀ latency ∈ latencies, latency = average := by
  rw [List.filter_eq_nil_iff]
  constructor
  · intro out
    have atAverage : ∀ latency ∈ samples.map TimeSampleNode.latency, latency = average := by
      refine eq_of_far ?_ fun latency member => ?_
      · rw [length_map]
        exact le_trans (by decide) many
      · obtain ⟨sample, inside, rfl⟩ := mem_map.mp member
        rw [length_map]
        exact not_lt.mp fun near => out sample inside (decide_eq_true near)
    refine eq_of_mean (fun latency inside => ?_) mean
    obtain ⟨sample, first⟩ := List.exists_mem_of_length_pos (Nat.lt_of_lt_of_le (by decide) many)
    rcases smallest_least inside with isKept | above
    · exact le_of_eq (atAverage latency (kept ▸ isKept)).symm
    · rw [← atAverage _ (List.mem_map_of_mem first)]
      exact above _ (kept ▸ List.mem_map_of_mem first)
  · intro same sample inside near
    have atAverage : ∀ latency ∈ samples.map TimeSampleNode.latency, latency = average := fun latency member =>
      same latency (smallest_subset _ _ (kept ▸ member))
    have close := of_decide_eq_true near
    rw [deviations_same atAverage, zero_div, atAverage _ (List.mem_map_of_mem inside), sub_self, mul_zero] at close
    exact lt_irrefl _ close

/-! ### Flat latencies -/

theorem Flat.many (flat : Flat latencies) : minSamplesForStandardDeviation ≤ latencies.length := by
  obtain ⟨common, count, later, parts, five, -, -⟩ := flat
  rw [parts, List.length_append, List.length_replicate]
  exact le_trans five (Nat.le_add_right _ _)

theorem flat_concat {latency : ℚ} (flat : Flat (latencies ++ [latency])) :
    (∃ common, ∀ other ∈ latencies ++ [latency], other = common) ∨
      ∃ common count before, latencies = List.replicate count common ++ before ∧
        maxIncludedSamples ≤ count ∧ (∀ other ∈ before, common < other) ∧ common < latency := by
  obtain ⟨common, count, later, parts, -, larger, cut⟩ := flat
  rcases List.eq_nil_or_concat later with none | ⟨before, last, split⟩
  · rw [none, append_nil] at parts
    exact .inl ⟨common, (List.eq_replicate_iff.mp parts).2⟩
  · rw [split, List.concat_eq_append, ← List.append_assoc] at parts
    obtain ⟨front, isLast⟩ := List.append_inj' parts rfl
    rw [split, List.concat_eq_append] at larger cut
    refine .inr ⟨common, count, before, front, cut.resolve_left (by simp), fun other member => ?_, ?_⟩
    · exact larger other (List.mem_append_left _ member)
    · rw [(List.cons.inj isLast).1]
      exact larger last (by simp)

/-- A latency that is left out changes nothing. -/
theorem flat_above {latency : ℚ} (full : maxIncludedSamples ≤ latencies.length)
    (above : ∀ other ∈ smallest maxIncludedSamples latencies, other < latency) :
    Flat (latencies ++ [latency]) ↔ Flat latencies := by
  have kept : 0 < (smallest maxIncludedSamples latencies).length := by
    rw [length_smallest, Nat.min_eq_left full]
    decide
  obtain ⟨other, isKept⟩ := List.exists_mem_of_length_pos kept
  have inside := smallest_subset _ _ isKept
  constructor
  · intro flat
    rcases flat_concat flat with ⟨common, same⟩ | ⟨common, count, before, parts, enough, larger, -⟩
    · have less := above other isKept
      rw [same other (List.mem_append_left _ inside), same latency (by simp)] at less
      exact absurd less (lt_irrefl _)
    · exact ⟨common, count, before, parts, le_trans (by decide) enough, larger, .inr enough⟩
  · rintro ⟨common, count, later, parts, five, larger, cut⟩
    have low : common ≤ other := by
      rw [parts] at inside
      rcases List.mem_append.mp inside with first | second
      · exact le_of_eq (List.eq_of_mem_replicate first).symm
      · exact (larger other second).le
    refine ⟨common, count, later ++ [latency], ?_, five, fun next member => ?_, .inr ?_⟩
    · rw [parts, List.append_assoc]
    · rcases List.mem_append.mp member with before | last
      · exact larger next before
      · rw [List.mem_singleton.mp last]
        exact lt_of_le_of_lt low (above other isKept)
    · rcases cut with none | enough
      · rwa [parts, none, append_nil, List.length_replicate] at full
      · exact enough

theorem flat_inserted {latency : ℚ} (inserted : ¬ (maxIncludedSamples ≤ latencies.length ∧
      ∀ other ∈ smallest maxIncludedSamples latencies, other < latency))
    (many : minSamplesForStandardDeviation ≤ (latencies ++ [latency]).length) :
    Flat (latencies ++ [latency]) ↔ ∃ common, ∀ other ∈ latencies ++ [latency], other = common := by
  constructor
  · intro flat
    rcases flat_concat flat with same | ⟨common, count, before, parts, enough, larger, less⟩
    · exact same
    · refine absurd ⟨?_, fun other isKept => ?_⟩ inserted
      · rw [parts, List.length_append, List.length_replicate]
        exact le_trans enough (Nat.le_add_right _ _)
      · rw [parts, smallest_replicate enough fun next member => (larger next member).le] at isKept
        rw [List.eq_of_mem_replicate isKept]
        exact less
  · rintro ⟨common, same⟩
    refine ⟨common, (latencies ++ [latency]).length, [], ?_, many, fun _ member => ?_, .inl rfl⟩
    · rw [append_nil]
      exact List.eq_replicate_iff.mpr ⟨rfl, same⟩
    · cases member

/-! ### What is known after every sample -/

structure Known (samples : List TimeSample) (sync : TimeSync) : Prop where
  number : sync.numTotalSamples = samples.length
  total : sync.totalLatencyMS = (samples.map TimeSample.latency).sum
  latencies : sync.samples.map TimeSampleNode.latency =
    smallest maxIncludedSamples (samples.map TimeSample.latency)
  nodes : ∀ node ∈ sync.samples, ∃ sample ∈ samples, node = sample.node
  deviation : sync.samples.length < minSamplesForStandardDeviation → sync.sampleStandardDeviation = none
  included : samples ≠ [] → (1 ≤ sync.numIncludedSamples ↔ ¬ Flat (samples.map TimeSample.latency))
  between : 1 ≤ sync.numIncludedSamples → ∃ offset, sync.offsetMS = .number offset ∧
    (∃ low ∈ sync.samples, low.offset ≤ offset) ∧ ∃ high ∈ sync.samples, offset ≤ high.offset

theorem Known.length (known : Known samples sync) : sync.samples.length = min maxIncludedSamples samples.length := by
  have size := congrArg List.length known.latencies
  rwa [length_map, length_smallest, length_map] at size

theorem Symmetric.offset {clockOffset : ℚ} {sample : TimeSample} (symmetric : Symmetric clockOffset sample) :
    sample.offset = clockOffset := by
  obtain ⟨time, received, current⟩ := symmetric
  rw [TimeSample.offset, TimeSample.latency, received, current]
  ring

theorem Known.right (known : Known samples sync) (included : 1 ≤ sync.numIncludedSamples) : Right samples sync := by
  obtain ⟨offset, isOffset, low, high⟩ := known.between included
  refine ⟨included, ⟨offset, isOffset, low, high⟩, known.latencies, fun clockOffset symmetric => ?_⟩
  have each : ∀ node ∈ sync.samples, node.offset = clockOffset := by
    intro node inside
    obtain ⟨sample, member, isNode⟩ := known.nodes node inside
    rw [isNode]
    exact (symmetric sample member).offset
  obtain ⟨first, isFirst, above⟩ := low
  obtain ⟨second, isSecond, below⟩ := high
  rw [each first isFirst] at above
  rw [each second isSecond] at below
  rw [isOffset, le_antisymm above below]

theorem Known.count (known : Known samples sync) (sample : TimeSample) (full : maxIncludedSamples ≤ sync.samples.length)
    (above : ∀ other ∈ sync.samples.map TimeSampleNode.latency, other < sample.latency) :
    Known (samples ++ [sample]) (sync.count sample.latency) := by
  have many : maxIncludedSamples ≤ samples.length := by
    rw [known.length] at full
    exact le_trans full (min_le_right _ _)
  have some : samples ≠ [] := fun none => by
    rw [none] at many
    exact absurd many (by decide)
  rw [known.latencies] at above
  constructor
  · rw [List.length_append, ← known.number]
    rfl
  · rw [map_append, List.sum_append, ← known.total]
    exact congrArg (sync.totalLatencyMS + ·) (add_zero sample.latency).symm
  · refine known.latencies.trans ?_
    rw [map_append, map_singleton, smallest_concat, orderedInsert_of_above above,
      List.take_append_of_le_length, List.take_of_length_le]
    · rw [length_smallest]
      exact min_le_left _ _
    · rw [length_smallest, length_map, Nat.min_eq_left many]
  · intro node inside
    obtain ⟨other, member, isNode⟩ := known.nodes node inside
    exact ⟨other, List.mem_append_left _ member, isNode⟩
  · exact known.deviation
  · intro _
    rw [map_append, map_singleton, flat_above (by rwa [length_map]) above]
    exact known.included some
  · exact known.between

theorem calculate_included (sync : TimeSync) : sync.calculate.numIncludedSamples =
    (sync.samples.filter (isIncluded sync.averageLatencyMS sync.sampleStandardDeviation)).length :=
  (includeSamples_eq sync.averageLatencyMS sync.sampleStandardDeviation sync.samples).1

theorem calculate_between (sync : TimeSync) (included : 1 ≤ sync.calculate.numIncludedSamples) :
    ∃ offset, sync.calculate.offsetMS = .number offset ∧
      (∃ low ∈ sync.samples, low.offset ≤ offset) ∧ ∃ high ∈ sync.samples, offset ≤ high.offset := by
  obtain ⟨count, sum⟩ := includeSamples_eq sync.averageLatencyMS sync.sampleStandardDeviation sync.samples
  let kept := sync.samples.filter (isIncluded sync.averageLatencyMS sync.sampleStandardDeviation)
  have some : kept.map TimeSampleNode.offset ≠ [] := by
    rw [calculate_included] at included
    exact fun none => absurd (List.map_eq_nil_iff.mp none) (List.ne_nil_of_length_pos included)
  obtain ⟨⟨low, isLow, above⟩, high, isHigh, below⟩ := mean_between some
  obtain ⟨first, isFirst, rfl⟩ := mem_map.mp isLow
  obtain ⟨second, isSecond, rfl⟩ := mem_map.mp isHigh
  refine ⟨(kept.map TimeSampleNode.offset).sum / (kept.map TimeSampleNode.offset).length, ?_,
    ⟨first, List.mem_of_mem_filter isFirst, above⟩, second, List.mem_of_mem_filter isSecond, below⟩
  rw [TimeSync.calculate, count, sum, length_map]
  exact if_pos (calculate_included sync ▸ included)

theorem preserve_samples (sync : TimeSync) {samples : List TimeSampleNode}
    (few : samples.length ≤ maxIncludedSamples + 1) :
    (sync.preserve samples).samples = samples.take maxIncludedSamples := by
  rw [TimeSync.preserve]
  by_cases many : samples.length > maxIncludedSamples
  · have exactly : samples.length = maxIncludedSamples + 1 := le_antisymm few many
    exact (if_pos many).trans (by rw [List.dropLast_eq_take, exactly, Nat.add_sub_cancel])
  · exact (if_neg many).trans (List.take_of_length_le (not_lt.mp many)).symm

theorem preserve_deviation (sync : TimeSync) (samples : List TimeSampleNode) :
    (sync.preserve samples).sampleStandardDeviation =
      if minSamplesForStandardDeviation ≤ (sync.preserve samples).samples.length then
        some (deviations sync.averageLatencyMS ((sync.preserve samples).samples.map TimeSampleNode.latency) /
          (((sync.preserve samples).samples.length : ℚ) - 1))
      else sync.sampleStandardDeviation := by
  rw [deviations, List.map_map, ← zero_add (List.sum _), ← foldl_sum]
  rfl

theorem calculate_iff (some : latencies ≠ [])
    (kept : sync.samples.map TimeSampleNode.latency = smallest maxIncludedSamples latencies)
    (mean : latencies.sum = latencies.length * sync.averageLatencyMS)
    (many : minSamplesForStandardDeviation ≤ sync.samples.length)
    (deviation : sync.sampleStandardDeviation =
      .some (deviations sync.averageLatencyMS (sync.samples.map TimeSampleNode.latency) /
        ((sync.samples.length : ℚ) - 1))) :
    1 ≤ sync.calculate.numIncludedSamples ↔ ¬ ∃ common, ∀ latency ∈ latencies, latency = common := by
  have same : (∀ latency ∈ latencies, latency = sync.averageLatencyMS) ↔
      ∃ common, ∀ latency ∈ latencies, latency = common := by
    constructor
    · exact fun all => ⟨_, all⟩
    · rintro ⟨common, all⟩
      exact mean_of_same some all mean ▸ all
  rw [calculate_included, Nat.succ_le_iff, List.length_pos_iff, deviation, Ne, left_out_iff kept many mean, same]

theorem Known.insert (lowest : LowestIndex sortedIndexBy) (known : Known samples sync) (sample : TimeSample)
    (inserted : ¬ (maxIncludedSamples ≤ sync.samples.length ∧
      ∀ other ∈ sync.samples.map TimeSampleNode.latency, other < sample.latency)) :
    Known (samples ++ [sample]) (((sync.count sample.latency).preserve (sync.samples.insertIdx
      (sortedIndexBy (sync.samples.map TimeSampleNode.latency) sample.latency) sample.node)).calculate) := by
  let index := sortedIndexBy (sync.samples.map TimeSampleNode.latency) sample.latency
  let next := (sync.count sample.latency).preserve (sync.samples.insertIdx index sample.node)
  have sorted : (sync.samples.map TimeSampleNode.latency).Pairwise (· ≤ ·) := by
    rw [known.latencies]
    exact smallest_sorted _ _
  have preserved : next.samples = (sync.samples.insertIdx index sample.node).take maxIncludedSamples := by
    refine preserve_samples _ (le_trans List.length_insertIdx_le_succ (Nat.succ_le_succ ?_))
    rw [known.length]
    exact min_le_left _ _
  have latencies : next.samples.map TimeSampleNode.latency =
      smallest maxIncludedSamples ((samples ++ [sample]).map TimeSample.latency) := by
    rw [preserved, List.map_take, List.map_insertIdx, map_append, map_singleton, smallest_concat,
      ← known.latencies, ← insertIdx_lowest lowest sorted]
    rfl
  have length : next.samples.length = min maxIncludedSamples (samples ++ [sample]).length := by
    have size := congrArg List.length latencies
    rwa [length_map, length_smallest, length_map] at size
  have mean : ((samples ++ [sample]).map TimeSample.latency).sum =
      ((samples ++ [sample]).map TimeSample.latency).length * next.averageLatencyMS := by
    have average : next.averageLatencyMS =
        (sync.totalLatencyMS + sample.latency) / (sync.numTotalSamples + 1 : Nat) := rfl
    rw [average, known.number, known.total, length_map, List.length_append, List.length_singleton,
      mul_div_cancel₀ _ (Nat.cast_ne_zero.mpr (Nat.succ_ne_zero _)), map_append, List.sum_append,
      map_singleton, List.sum_singleton]
  have more : sync.samples.length ≤ next.samples.length := by
    rw [known.length, length, List.length_append]
    exact min_le_min_left _ (Nat.le_add_right _ _)
  have unknown : next.samples.length < minSamplesForStandardDeviation → next.sampleStandardDeviation = none := by
    intro few
    refine (preserve_deviation _ _).trans ((if_neg (not_le.mpr few)).trans ?_)
    exact known.deviation (lt_of_le_of_lt more few)
  constructor
  · rw [List.length_append, ← known.number]
    rfl
  · rw [map_append, List.sum_append, ← known.total]
    exact congrArg (sync.totalLatencyMS + ·) (add_zero sample.latency).symm
  · exact latencies
  · intro node inside
    have place : node ∈ next.samples := inside
    rw [preserved] at place
    rcases List.eq_or_mem_of_mem_insertIdx (List.mem_of_mem_take place) with new | old
    · exact ⟨sample, List.mem_append_right _ (by simp), new⟩
    · obtain ⟨other, member, isNode⟩ := known.nodes node old
      exact ⟨other, List.mem_append_left _ member, isNode⟩
  · exact unknown
  · intro some
    by_cases many : minSamplesForStandardDeviation ≤ next.samples.length
    · have deviation := (preserve_deviation (sync.count sample.latency) _).trans (if_pos many)
      have whole : minSamplesForStandardDeviation ≤ (samples.map TimeSample.latency ++ [sample.latency]).length := by
        rw [length] at many
        rw [List.length_append, length_map]
        exact le_trans many (by rw [List.length_append]; exact min_le_right _ _)
      have notEmpty : (samples ++ [sample]).map TimeSample.latency ≠ [] := by simp
      refine (calculate_iff notEmpty latencies mean many deviation).trans (not_congr ?_)
      rw [map_append, map_singleton]
      refine (flat_inserted (fun early => inserted ⟨?_, ?_⟩) whole).symm
      · rw [known.length]
        exact le_min le_rfl (by rw [← length_map]; exact early.1)
      · rw [known.latencies]
        exact early.2
    · have few := not_le.mp many
      have all : next.samples.filter (isIncluded next.averageLatencyMS none) = next.samples :=
        List.filter_eq_self.mpr fun _ _ => rfl
      have count := calculate_included next
      rw [unknown few, all, length, List.length_append, List.length_singleton] at count
      refine ⟨fun _ flat => many ?_, fun _ => ?_⟩
      · have whole := flat.many
        rw [length_map] at whole
        rw [length]
        exact le_min (by decide) whole
      · exact le_trans (le_min (by decide) (Nat.le_add_left 1 _)) (le_of_eq count.symm)
  · exact calculate_between next

theorem known_addSample (lowest : LowestIndex sortedIndexBy) (known : Known samples sync) (sample : TimeSample) :
    Known (samples ++ [sample]) (sync.addSample sortedIndexBy sample) := by
  have sorted : (sync.samples.map TimeSampleNode.latency).Pairwise (· ≤ ·) := by
    rw [known.latencies]
    exact smallest_sorted _ _
  have past : _ ↔ ∀ other ∈ sync.samples.map TimeSampleNode.latency, other < sample.latency :=
    lowest.past_iff sorted
  rw [length_map] at past
  rw [TimeSync.addSample]
  split
  · next early => exact known.count sample early.2 (past.mp early.1)
  · next late => exact known.insert lowest sample fun early => late ⟨past.mpr early.2, early.1⟩

theorem known_foldl (lowest : LowestIndex sortedIndexBy)
    {before : List TimeSample} (known : Known before sync) (samples : List TimeSample) :
    Known (before ++ samples) (samples.foldl (fun sync sample => sync.addSample sortedIndexBy sample) sync) := by
  induction samples generalizing before sync with
  | nil => rwa [append_nil]
  | cons sample rest ih =>
    rw [List.foldl_cons, List.append_cons]
    exact ih (known_addSample lowest known sample)

theorem known_new : Known [] TimeSync.new where
  number := rfl
  total := rfl
  latencies := rfl
  nodes := fun _ inside => absurd inside List.not_mem_nil
  deviation := fun _ => rfl
  included := fun some => absurd rfl some
  between := fun one => absurd one (by decide)

/-- A message of ten milliseconds each way to a server whose clock is 25 milliseconds ahead. -/
def steady : TimeSample :=
  { clientRequestTime := 0, serverReceiveTime := 35, serverTransmitTime := 35, currentTime := 20 }

end CasualOS.ClockSamples

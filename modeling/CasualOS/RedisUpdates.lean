import Mathlib.Data.List.Perm.Subperm
import Mathlib.Data.List.TakeWhile
import CasualOS.UpdatesStore
import CasualOS.Lib.Run

/-! `RedisUpdatesStore`: the updates of a branch in a list, a byte counter and a merge timestamp. -/

namespace CasualOS.RedisUpdates

open Run
open Option (getD_some)

/-- A number of JavaScript or Lua; nothing for `NaN`. -/
abbrev Number := Option Int

def isWhiteSpace (u : CodeUnit) : Bool :=
  u.val ∈ [9, 10, 11, 12, 13, 32, 160, 5760, 8232, 8233, 8239, 8287, 12288, 65279] ||
    8192 ≤ u.val && u.val ≤ 8202

def digitOf (u : CodeUnit) : Option Nat :=
  if 48 ≤ u.val ∧ u.val ≤ 57 then some (u.val - 48) else none

def hexDigitOf (u : CodeUnit) : Option Nat :=
  if 97 ≤ u.val ∧ u.val ≤ 102 then some (u.val - 87)
  else if 65 ≤ u.val ∧ u.val ≤ 70 then some (u.val - 55)
  else digitOf u

/-- The digits that stand first, when there are any. -/
def parseDigits (radix : Nat) (digit : CodeUnit → Option Nat) (text : JsString) : Option Nat :=
  match text.takeWhile fun u => (digit u).isSome with
  | [] => none
  | digits => some (digits.foldl (fun value u => value * radix + (digit u).getD 0) 0)

def parseUnsigned : JsString → Option Nat
  | 48 :: 120 :: rest => parseDigits 16 hexDigitOf rest
  | 48 :: 88 :: rest => parseDigits 16 hexDigitOf rest
  | text => parseDigits 10 digitOf text

def parseInt (text : JsString) : Number :=
  match text.dropWhile isWhiteSpace with
  | 45 :: rest => (parseUnsigned rest).map fun value => -(value : Int)
  | 43 :: rest => (parseUnsigned rest).map fun value => (value : Int)
  | text => (parseUnsigned text).map fun value => (value : Int)

def colon : CodeUnit := 58

structure StoredUpdates where
  updates : List JsString
  timestamps : Option (List Number)
  deriving DecidableEq

/-- The keys of a branch. The list, the counters and the timestamp are texts, the last three of numbers. -/
structure Redis where
  updates : List JsString
  updateCount : Option Int
  updateSize : Option Int
  mergeTime : Option Number
  deriving DecidableEq

/-- An update with the time at which it is stamped. -/
abbrev Stamped := JsString × Nat

def finalUpdate (update : Stamped) : JsString := update.1 ++ colon :: JsString.ofInt update.2

def parseUpdate (entry : JsString) : JsString × Number :=
  if colon ∈ entry then (entry.takeWhile (· ≠ colon), parseInt ((entry.dropWhile (· ≠ colon)).drop 1))
  else (entry, some (-1))

def parsed (redis : Redis) : List (JsString × Number) := redis.updates.map parseUpdate

def getUpdates (redis : Redis) : StoredUpdates :=
  { updates := (parsed redis).map Prod.fst
    timestamps := match (parsed redis).map Prod.snd with
      | [] => none
      | timestamps => some timestamps }

inductive Result where
  | success
  | maxSizeReached (neededBranchSizeInBytes : Int)
  | scriptError
  | typeError
  deriving DecidableEq

/-- A number of Lua, or a text with one that `GET` returned. -/
inductive LuaValue where
  | number (value : Number)
  | text (value : Number)

/-- `>=` with a number raises an error on a text; nothing compares to `NaN`. -/
def LuaValue.ge : LuaValue → Number → Option Bool
  | .text _, _ => none
  | .number (some left), some right => some (right ≤ left)
  | .number _, _ => some false

/-- A maximum of `Infinity` is passed as -1. -/
def maxSizeArg (maxSizeInBytes : Option Int) : Int := maxSizeInBytes.getD (-1)

def addUpdatesScript (redis : Redis) (maxSize updatesSize : Int) (finalUpdates : List JsString) : Redis × Result :=
  let currentSize := redis.updateSize.getD 0
  let requiredSize := currentSize + updatesSize
  if 0 < maxSize ∧ maxSize < requiredSize then (redis, .maxSizeReached requiredSize)
  else
    ({ redis with
        updateCount := some (redis.updateCount.getD 0 + 1)
        updateSize := some (currentSize + updatesSize)
        updates := redis.updates ++ finalUpdates }, .success)

def addUpdates (maxSizeInBytes : Option Int) (redis : Redis) (updates : List Stamped) : Redis × Result :=
  addUpdatesScript redis (maxSizeArg maxSizeInBytes) (totalLength (updates.map Prod.fst)) (updates.map finalUpdate)

def mergeTimestamp (redis : Redis) : LuaValue :=
  match redis.mergeTime with
  | none => .number (some 0)
  | some time => .text time

def replaceUpdatesScript (redis : Redis) (timestamp : Number) (maxSize addedSize removedSize lastUpdateIndex : Int)
    (finalUpdates : List JsString) : Redis × Result :=
  let sizeDelta := addedSize - removedSize
  let currentSize := redis.updateSize.getD 0
  let requiredSize := currentSize + sizeDelta
  if 0 < maxSize ∧ maxSize < requiredSize then (redis, .maxSizeReached requiredSize)
  else match (mergeTimestamp redis).ge timestamp with
    | none => (redis, .scriptError)
    | some merged =>
      let stamped := if merged then redis else { redis with mergeTime := some timestamp }
      if merged = false ∧ 0 ≤ lastUpdateIndex then
        -- `LTRIM` keeps the update at `lastUpdateIndex`
        ({ stamped with
            updateCount := some (redis.updateCount.getD 0 + 1)
            updateSize := some (currentSize + sizeDelta)
            updates := redis.updates.drop lastUpdateIndex.toNat ++ finalUpdates }, .success)
      else if maxSize < currentSize + addedSize then (stamped, .maxSizeReached (currentSize + addedSize))
      else
        ({ stamped with
            updateCount := some (redis.updateCount.getD 0 + 1)
            updateSize := some (currentSize + addedSize)
            updates := redis.updates ++ finalUpdates }, .success)

/-- The timestamps of an empty branch are `null`, and have no `length`. -/
def replaceUpdates (maxSizeInBytes : Option Int) (redis : Redis) (updatesToRemove : StoredUpdates)
    (updatesToAdd : List Stamped) (now : Nat) : Redis × Result :=
  match updatesToRemove.timestamps with
  | none => (redis, .typeError)
  | some timestamps =>
    replaceUpdatesScript redis (timestamps.headD (some now)) (maxSizeArg maxSizeInBytes)
      (totalLength (updatesToAdd.map Prod.fst)) (totalLength updatesToRemove.updates)
      (updatesToRemove.updates.length - 1) (updatesToAdd.map finalUpdate)

/-- Only the list is deleted. -/
def clearUpdates (redis : Redis) : Redis := { redis with updates := [] }

/-! ### Runs -/

/-- A call of `replaceUpdates` has what an earlier call of `getUpdates` returned. -/
inductive Label where
  | getUpdates
  | addUpdates (updates : List Stamped)
  | replaceUpdates (read : Nat) (updatesToAdd : List Stamped) (now : Nat)
  | clearUpdates

/-- Whether a script raised an error, an update left that was not listed, or a maximum was reached that
is infinite. -/
structure Calls where
  redis : Redis
  reads : List StoredUpdates
  raised : Bool
  lost : Bool
  reported : Bool

def start : Calls :=
  { redis := { updates := [], updateCount := none, updateSize := none, mergeTime := none }
    reads := []
    raised := false
    lost := false
    reported := false }

def Result.isReached : Result → Bool
  | .maxSizeReached _ => true
  | _ => false

def listed (stored : StoredUpdates) : List (JsString × Number) := stored.updates.zip (stored.timestamps.getD [])

def answered (maxSizeInBytes : Option Int) (s : Calls) (answer : Redis × Result) (lost : Bool) : Calls :=
  { s with
    redis := answer.1
    raised := s.raised || decide (answer.2 = .scriptError)
    lost := s.lost || lost
    reported := s.reported || (maxSizeInBytes.isNone && answer.2.isReached) }

def step (maxSizeInBytes : Option Int) (s : Calls) : Label → Option Calls
  | .getUpdates => some { s with reads := s.reads ++ [RedisUpdates.getUpdates s.redis] }
  | .addUpdates updates => some (answered maxSizeInBytes s (RedisUpdates.addUpdates maxSizeInBytes s.redis updates)
      false)
  | .replaceUpdates read updatesToAdd now => (s.reads[read]?).map fun stored =>
    let answer := RedisUpdates.replaceUpdates maxSizeInBytes s.redis stored updatesToAdd now
    answered maxSizeInBytes s answer (decide ¬ List.Subperm (parsed s.redis) (parsed answer.1 ++ listed stored))
  | .clearUpdates => some { s with redis := RedisUpdates.clearUpdates s.redis }

def texts (redis : Redis) : List JsString := (parsed redis).map Prod.fst

structure Exact (s : Calls) : Prop where
  quiet : s.raised = false
  kept : s.lost = false
  unreported : s.reported = false
  size : s.redis.updateSize.getD 0 = totalLength (texts s.redis)

/-- What of the updates stands before their first colons. -/
def readUpdates (updates : List Stamped) : List (JsString × Number) :=
  updates.map fun update => parseUpdate (finalUpdate update)

def ColonFree (updates : List Stamped) : Prop := ∀ update ∈ updates, colon ∉ update.1

def Refused (maxSizeInBytes : Option Int) (redis : Redis) (size : Int) : Prop :=
  0 < maxSizeArg maxSizeInBytes ∧ maxSizeArg maxSizeInBytes < redis.updateSize.getD 0 + size

/-- The list is trimmed: there is an update to remove, and the first one is not stamped with 0. -/
def Trims (stored : StoredUpdates) (timestamp : Number) : Prop :=
  stored.updates ≠ [] ∧ ∀ time ∈ timestamp, 0 < time

instance (stored : StoredUpdates) (timestamp : Number) : Decidable (Trims stored timestamp) :=
  inferInstanceAs (Decidable (stored.updates ≠ [] ∧ ∀ time ∈ timestamp, 0 < time))

/-- What stands before the place of the last update to remove was listed or is added again, and the sizes
of both match. -/
def TrimsExactly (redis : Redis) (stored : StoredUpdates) (updatesToAdd : List Stamped) : Prop :=
  List.Subperm ((parsed redis).take (stored.updates.length - 1)) (readUpdates updatesToAdd ++ listed stored) ∧
    totalLength ((texts redis).take (stored.updates.length - 1)) + totalLength (updatesToAdd.map Prod.fst) =
      totalLength stored.updates + totalLength ((readUpdates updatesToAdd).map Prod.fst)

def Allowed (maxSizeInBytes : Option Int) (s : Calls) : Label → Prop
  | .getUpdates => True
  | .addUpdates updates =>
    Refused maxSizeInBytes s.redis (totalLength (updates.map Prod.fst)) ∨ ColonFree updates
  | .replaceUpdates read updatesToAdd now =>
    ∀ stored ∈ s.reads[read]?, ∀ timestamps ∈ stored.timestamps,
      Refused maxSizeInBytes s.redis (totalLength (updatesToAdd.map Prod.fst) - totalLength stored.updates) ∨
        s.redis.mergeTime = none ∧
          if Trims stored (timestamps.headD (some now)) then TrimsExactly s.redis stored updatesToAdd
          else maxSizeInBytes ≠ none ∧ (maxSizeArg maxSizeInBytes <
            s.redis.updateSize.getD 0 + totalLength (updatesToAdd.map Prod.fst) ∨ ColonFree updatesToAdd)
  | .clearUpdates => totalLength (texts s.redis) = 0

section Sizes

theorem totalLength_nonneg (updates : List JsString) : 0 ≤ totalLength updates := by
  induction updates with
  | nil => exact le_refl _
  | cons update rest ih =>
    have cons : totalLength (update :: rest) = update.length + totalLength rest := by simp [totalLength]
    omega

theorem takeWhile_colon (update rest : JsString) :
    (update ++ colon :: rest).takeWhile (· ≠ colon) = update.takeWhile (· ≠ colon) := by
  induction update with
  | nil => rfl
  | cons u later ih =>
    by_cases isColon : u = colon
    · simp [isColon]
    · rw [List.cons_append, List.takeWhile_cons_of_pos (by simpa using isColon),
        List.takeWhile_cons_of_pos (by simpa using isColon), ih]

theorem takeWhile_length (update : JsString) :
    (update.takeWhile (· ≠ colon)).length = update.length ↔ colon ∉ update := by
  constructor
  · intro whole inside
    have same := (List.takeWhile_prefix (· ≠ colon)).eq_of_length whole
    have all := List.takeWhile_eq_self_iff.mp same colon inside
    simp at all
  · intro free
    refine congrArg List.length (List.takeWhile_eq_self_iff.mpr fun u inside => ?_)
    have apart : u ≠ colon := fun isColon => free (isColon ▸ inside)
    exact decide_eq_true apart

theorem parse_finalUpdate (update : Stamped) :
    (parseUpdate (finalUpdate update)).1 = update.1.takeWhile (· ≠ colon) := by
  have inside : colon ∈ finalUpdate update := List.mem_append_right _ List.mem_cons_self
  rw [parseUpdate, if_pos inside, finalUpdate]
  exact takeWhile_colon update.1 _

/-- No update is longer as it is read, and all are as long only without colons. -/
theorem read_length (updates : List Stamped) :
    totalLength ((readUpdates updates).map Prod.fst) ≤ totalLength (updates.map Prod.fst) ∧
      (totalLength ((readUpdates updates).map Prod.fst) = totalLength (updates.map Prod.fst) ↔ ColonFree updates) := by
  induction updates with
  | nil => simp [readUpdates, ColonFree]
  | cons update rest ih =>
    have read : totalLength ((readUpdates (update :: rest)).map Prod.fst) =
        (update.1.takeWhile (· ≠ colon)).length + totalLength ((readUpdates rest).map Prod.fst) := by
      simp [readUpdates, totalLength, parse_finalUpdate]
    have whole : totalLength ((update :: rest).map Prod.fst) =
        update.1.length + totalLength (rest.map Prod.fst) := by simp [totalLength]
    have shorter := (List.takeWhile_prefix (p := fun u => decide (u ≠ colon)) (l := update.1)).length_le
    have free := takeWhile_length update.1
    have split : ColonFree (update :: rest) ↔ colon ∉ update.1 ∧ ColonFree rest := by simp [ColonFree]
    rw [read, whole, split, ← free, ← ih.2]
    omega

end Sizes

section Steps

variable {maxSizeInBytes : Option Int} {s next : Calls}

theorem exact_start : Exact start where
  quiet := rfl
  kept := rfl
  unreported := rfl
  size := rfl

theorem parsed_append (entries : List JsString) (updates : List Stamped) :
    (entries ++ updates.map finalUpdate).map parseUpdate = entries.map parseUpdate ++ readUpdates updates := by
  simp [readUpdates]

theorem length_append (entries : List JsString) (updates : List Stamped) :
    totalLength (((entries ++ updates.map finalUpdate).map parseUpdate).map Prod.fst) =
      totalLength ((entries.map parseUpdate).map Prod.fst) + totalLength ((readUpdates updates).map Prod.fst) := by
  rw [parsed_append, List.map_append, totalLength_append]

theorem exact_answered (exactly : Exact s) (answer : Redis × Result) (lost : Bool) :
    Exact (answered maxSizeInBytes s answer lost) ↔ answer.2 ≠ .scriptError ∧ lost = false ∧
      (maxSizeInBytes = none → answer.2.isReached = false) ∧
      answer.1.updateSize.getD 0 = totalLength (texts answer.1) := by
  constructor
  · intro kept
    refine ⟨?_, ?_, ?_, kept.size⟩
    · simpa [answered, exactly.quiet] using kept.quiet
    · simpa [answered, exactly.kept] using kept.kept
    · rintro rfl
      simpa [answered, exactly.unreported] using kept.unreported
  · rintro ⟨quiet, kept, unreported, size⟩
    refine ⟨?_, ?_, ?_, size⟩
    · simpa [answered, exactly.quiet] using quiet
    · simpa [answered, exactly.kept] using kept
    · cases maxSizeInBytes with
      | none => simpa [answered, exactly.unreported] using unreported rfl
      | some maximum => simpa [answered] using exactly.unreported

theorem some_of_refused {size : Int} (refused : Refused maxSizeInBytes s.redis size) : maxSizeInBytes ≠ none := by
  rintro rfl
  exact absurd refused.1 (by decide)

theorem exact_added (exactly : Exact s) (updates : List Stamped) :
    Exact (answered maxSizeInBytes s (addUpdates maxSizeInBytes s.redis updates) false) ↔
      Allowed maxSizeInBytes s (.addUpdates updates) := by
  rw [exact_answered exactly, Allowed, addUpdates, addUpdatesScript]
  by_cases refused : Refused maxSizeInBytes s.redis (totalLength (updates.map Prod.fst))
  · have limit := refused
    rw [Refused] at limit
    refine iff_of_true ?_ (.inl refused)
    rw [if_pos limit]
    exact ⟨Result.noConfusion, rfl, fun infinite => absurd infinite (some_of_refused refused), exactly.size⟩
  · have limit := refused
    rw [Refused] at limit
    rw [if_neg limit, or_iff_right refused, ← (read_length updates).2]
    have size := exactly.size
    have whole : _ = totalLength (texts s.redis) + _ := length_append s.redis.updates updates
    constructor
    · rintro ⟨_, _, _, exactSize⟩
      have sizes := exactSize.trans whole
      rw [getD_some] at sizes
      omega
    · intro same
      refine ⟨Result.noConfusion, rfl, fun _ => rfl, Eq.trans ?_ whole.symm⟩
      rw [getD_some]
      omega

/-- No update leaves an untrimmed list; a trimmed one keeps what stands from the last update to remove. -/
theorem subperm_trimmed {A : Type} (before added listed : List A) (index : Nat) :
    List.Subperm before ((before.drop index ++ added) ++ listed) ↔
      List.Subperm (before.take index) (added ++ listed) := by
  have turned : List.Perm before (before.drop index ++ before.take index) := by
    refine List.Perm.trans (List.Perm.of_eq (List.take_append_drop index before).symm) List.perm_append_comm
  rw [List.append_assoc, turned.subperm_right, List.subperm_append_left]

theorem ge_zero (timestamp : Number) :
    (LuaValue.number (some 0)).ge timestamp = some (decide ¬ ∀ time ∈ timestamp, 0 < time) := by
  cases timestamp with
  | none => rfl
  | some time => simp [LuaValue.ge]

section Replacing

variable {redis : Redis} {stored : StoredUpdates} {timestamps : List Number} {updatesToAdd : List Stamped} {now : Nat}

theorem replace_refused (known : stored.timestamps = some timestamps)
    (refused : Refused maxSizeInBytes redis (totalLength (updatesToAdd.map Prod.fst) - totalLength stored.updates)) :
    ∃ needed, replaceUpdates maxSizeInBytes redis stored updatesToAdd now = (redis, .maxSizeReached needed) := by
  rw [Refused] at refused
  rw [replaceUpdates, known]
  simp only [replaceUpdatesScript, if_pos refused]
  exact ⟨_, rfl⟩

theorem replace_merged (known : stored.timestamps = some timestamps)
    (fits : ¬ Refused maxSizeInBytes redis (totalLength (updatesToAdd.map Prod.fst) - totalLength stored.updates))
    (merged : redis.mergeTime ≠ none) :
    replaceUpdates maxSizeInBytes redis stored updatesToAdd now = (redis, .scriptError) := by
  rw [Refused] at fits
  obtain ⟨time, isTime⟩ := Option.ne_none_iff_exists'.mp merged
  rw [replaceUpdates, known]
  simp only [replaceUpdatesScript, if_neg fits, mergeTimestamp, isTime, LuaValue.ge]

theorem replace_trimmed (known : stored.timestamps = some timestamps)
    (fits : ¬ Refused maxSizeInBytes redis (totalLength (updatesToAdd.map Prod.fst) - totalLength stored.updates))
    (unmerged : redis.mergeTime = none) (trims : Trims stored (timestamps.headD (some now))) :
    replaceUpdates maxSizeInBytes redis stored updatesToAdd now =
      ({ updates := redis.updates.drop (stored.updates.length - 1) ++ updatesToAdd.map finalUpdate
         updateCount := some (redis.updateCount.getD 0 + 1)
         updateSize := some (redis.updateSize.getD 0 +
           (totalLength (updatesToAdd.map Prod.fst) - totalLength stored.updates))
         mergeTime := some (timestamps.headD (some now)) }, .success) := by
  rw [Refused] at fits
  have nonempty : 0 < stored.updates.length := List.length_pos_iff.mpr trims.1
  have unmergedYet : decide (¬ ∀ time ∈ timestamps.headD (some now), 0 < time) = false :=
    decide_eq_false (not_not.mpr trims.2)
  have index : (0 : Int) ≤ stored.updates.length - 1 := by omega
  have toNat : ((stored.updates.length : Int) - 1).toNat = stored.updates.length - 1 := by omega
  rw [replaceUpdates, known]
  simp only [replaceUpdatesScript, if_neg fits, mergeTimestamp, unmerged, ge_zero, unmergedYet, index, toNat]
  rfl

theorem replace_untrimmed (known : stored.timestamps = some timestamps)
    (fits : ¬ Refused maxSizeInBytes redis (totalLength (updatesToAdd.map Prod.fst) - totalLength stored.updates))
    (unmerged : redis.mergeTime = none) (untrimmed : ¬ Trims stored (timestamps.headD (some now))) :
    ∃ time, replaceUpdates maxSizeInBytes redis stored updatesToAdd now =
      if maxSizeArg maxSizeInBytes < redis.updateSize.getD 0 + totalLength (updatesToAdd.map Prod.fst) then
        ({ redis with mergeTime := time },
          .maxSizeReached (redis.updateSize.getD 0 + totalLength (updatesToAdd.map Prod.fst)))
      else
        ({ updates := redis.updates ++ updatesToAdd.map finalUpdate
           updateCount := some (redis.updateCount.getD 0 + 1)
           updateSize := some (redis.updateSize.getD 0 + totalLength (updatesToAdd.map Prod.fst))
           mergeTime := time }, .success) := by
  rw [Refused] at fits
  have kept : ¬ ((decide ¬ ∀ time ∈ timestamps.headD (some now), 0 < time) = false ∧
      (0 : Int) ≤ stored.updates.length - 1) := by
    rintro ⟨merged, index⟩
    refine untrimmed ⟨List.length_pos_iff.mp (by omega), ?_⟩
    simpa using merged
  rw [replaceUpdates, known]
  simp only [replaceUpdatesScript, if_neg fits, mergeTimestamp, unmerged, ge_zero, if_neg kept]
  by_cases old : ∀ time ∈ timestamps.headD (some now), 0 < time
  · have stamped : decide (¬ ∀ time ∈ timestamps.headD (some now), 0 < time) = false :=
      decide_eq_false (not_not.mpr old)
    refine ⟨some (timestamps.headD (some now)), ?_⟩
    simp only [stamped, Bool.false_eq_true, if_false]
  · have unstamped : decide (¬ ∀ time ∈ timestamps.headD (some now), 0 < time) = true := decide_eq_true old
    refine ⟨redis.mergeTime, ?_⟩
    simp only [unstamped, if_true]

end Replacing

theorem exact_replaced (exactly : Exact s) (stored : StoredUpdates) (updatesToAdd : List Stamped) (now : Nat)
    (timestamps : List Number) (known : stored.timestamps = some timestamps) :
    Exact (answered maxSizeInBytes s (replaceUpdates maxSizeInBytes s.redis stored updatesToAdd now)
      (decide ¬ List.Subperm (parsed s.redis)
        (parsed (replaceUpdates maxSizeInBytes s.redis stored updatesToAdd now).1 ++ listed stored))) ↔
    (Refused maxSizeInBytes s.redis (totalLength (updatesToAdd.map Prod.fst) - totalLength stored.updates) ∨
      s.redis.mergeTime = none ∧
        if Trims stored (timestamps.headD (some now)) then TrimsExactly s.redis stored updatesToAdd
        else maxSizeInBytes ≠ none ∧ (maxSizeArg maxSizeInBytes <
          s.redis.updateSize.getD 0 + totalLength (updatesToAdd.map Prod.fst) ∨ ColonFree updatesToAdd)) := by
  rw [exact_answered exactly]
  have size := exactly.size
  have stays : ∀ more : List (JsString × Number), List.Subperm (parsed s.redis) (parsed s.redis ++ more) :=
    fun more => (List.sublist_append_left _ _).subperm
  by_cases refused : Refused maxSizeInBytes s.redis
      (totalLength (updatesToAdd.map Prod.fst) - totalLength stored.updates)
  · obtain ⟨needed, answer⟩ := @replace_refused maxSizeInBytes s.redis stored timestamps updatesToAdd now known refused
    rw [answer]
    exact iff_of_true ⟨Result.noConfusion, decide_eq_false (not_not.mpr (stays _)),
      fun infinite => absurd infinite (some_of_refused refused), size⟩ (.inl refused)
  rw [or_iff_right refused]
  by_cases unmerged : s.redis.mergeTime = none
  · rw [and_iff_right unmerged]
    by_cases trims : Trims stored (timestamps.headD (some now))
    · rw [if_pos trims, replace_trimmed known refused unmerged trims]
      have dropped : (s.redis.updates.drop (stored.updates.length - 1)).map parseUpdate =
          (parsed s.redis).drop (stored.updates.length - 1) := List.map_drop
      have list : _ = (parsed s.redis).drop (stored.updates.length - 1) ++ readUpdates updatesToAdd :=
        (parsed_append (s.redis.updates.drop (stored.updates.length - 1)) updatesToAdd).trans
          (congrArg (· ++ _) dropped)
      have whole : totalLength (texts s.redis) = totalLength ((texts s.redis).take (stored.updates.length - 1)) +
          totalLength (((parsed s.redis).drop (stored.updates.length - 1)).map Prod.fst) := by
        rw [List.map_drop, ← totalLength_append]
        exact congrArg totalLength (List.take_append_drop _ _).symm
      have after := length_append (s.redis.updates.drop (stored.updates.length - 1)) updatesToAdd
      rw [dropped] at after
      rw [TrimsExactly, ← subperm_trimmed, ← list]
      constructor
      · rintro ⟨_, kept, _, exactSize⟩
        refine ⟨not_not.mp (of_decide_eq_false kept), ?_⟩
        have sizes := exactSize.trans after
        rw [getD_some] at sizes
        omega
      · rintro ⟨kept, sizes⟩
        refine ⟨Result.noConfusion, decide_eq_false (not_not.mpr kept), fun _ => rfl, Eq.trans ?_ after.symm⟩
        rw [getD_some]
        omega
    · rw [if_neg trims]
      obtain ⟨time, answer⟩ := @replace_untrimmed maxSizeInBytes s.redis stored timestamps updatesToAdd now known
        refused unmerged trims
      rw [answer]
      by_cases exceeds : maxSizeArg maxSizeInBytes < s.redis.updateSize.getD 0 + totalLength (updatesToAdd.map Prod.fst)
      · rw [if_pos exceeds]
        constructor
        · rintro ⟨_, _, unreported, _⟩
          exact ⟨fun infinite => Bool.noConfusion (unreported infinite), .inl exceeds⟩
        · rintro ⟨finite, _⟩
          exact ⟨Result.noConfusion, decide_eq_false (not_not.mpr (stays _)),
            fun infinite => absurd infinite finite, size⟩
      · rw [if_neg exceeds, or_iff_right exceeds, ← (read_length updatesToAdd).2]
        have finite : maxSizeInBytes ≠ none := by
          rintro rfl
          have nonneg := totalLength_nonneg (texts s.redis)
          have added := totalLength_nonneg (updatesToAdd.map Prod.fst)
          rw [maxSizeArg, Option.getD_none] at exceeds
          omega
        have whole : _ = totalLength (texts s.redis) + _ := length_append s.redis.updates updatesToAdd
        constructor
        · rintro ⟨_, _, _, exactSize⟩
          have sizes := exactSize.trans whole
          rw [getD_some] at sizes
          refine ⟨finite, ?_⟩
          omega
        · rintro ⟨_, same⟩
          have kept : List.Subperm (parsed s.redis) ((s.redis.updates ++ updatesToAdd.map finalUpdate).map parseUpdate ++
              listed stored) := by
            rw [parsed_append, List.append_assoc]
            exact stays _
          refine ⟨Result.noConfusion, decide_eq_false (not_not.mpr kept), fun _ => rfl, Eq.trans ?_ whole.symm⟩
          rw [getD_some]
          omega
  · rw [replace_merged known refused unmerged]
    exact iff_of_false (fun kept => kept.1 rfl) (fun both => unmerged both.1)

theorem exact_cleared (exactly : Exact s) :
    Exact { s with redis := clearUpdates s.redis } ↔ totalLength (texts s.redis) = 0 := by
  rw [← exactly.size]
  constructor
  · exact fun kept => kept.size
  · exact fun size => ⟨exactly.quiet, exactly.kept, exactly.unreported, size⟩

theorem exact_step (exactly : Exact s) (label : Label) (ran : step maxSizeInBytes s label = some next) :
    Exact next ↔ Allowed maxSizeInBytes s label := by
  cases label with
  | getUpdates =>
    cases ran
    exact iff_of_true ⟨exactly.quiet, exactly.kept, exactly.unreported, exactly.size⟩ trivial
  | addUpdates updates =>
    cases ran
    exact exact_added exactly updates
  | clearUpdates =>
    cases ran
    exact exact_cleared exactly
  | replaceUpdates read updatesToAdd now =>
    obtain ⟨stored, isRead, isNext⟩ := Option.map_eq_some_iff.mp ran
    subst isNext
    cases known : stored.timestamps with
    | none =>
      have unread : Allowed maxSizeInBytes s (.replaceUpdates read updatesToAdd now) := by
        intro other isOther timestamps stamped
        cases isRead.symm.trans isOther
        cases known.symm.trans stamped
      refine iff_of_true ((exact_answered exactly _ _).mpr ?_) unread
      rw [replaceUpdates, known]
      have stays : List.Subperm (parsed s.redis) (parsed s.redis ++ listed stored) :=
        (List.sublist_append_left _ _).subperm
      exact ⟨Result.noConfusion, decide_eq_false (not_not.mpr stays), fun _ => rfl, exactly.size⟩
    | some timestamps =>
      rw [exact_replaced exactly stored updatesToAdd now timestamps known]
      constructor
      · intro met other isOther stamps stamped
        cases isRead.symm.trans isOther
        cases known.symm.trans stamped
        exact met
      · intro allowed
        exact allowed stored isRead timestamps known

end Steps

/-- No script raises an error, no update is lost, no infinite maximum is reached and the size is that of the
list, after every call of a run, exactly when every call is allowed: what is added has no colon, what is
cleared has no bytes, and updates are replaced once, when those trimmed away are as long as those listed. -/
theorem size_exact (maxSizeInBytes : Option Int) (labels : List Label) :
    Throughout (step maxSizeInBytes) Exact start labels ↔
      AllAllowed (step maxSizeInBytes) (Allowed maxSizeInBytes) start labels := by
  refine throughout_iff (fun state (exactly : Exact state) => exactly)
    (fun state label next exactly allowed ran => (exact_step exactly label ran).mpr allowed)
    (fun state label exactly kept => ?_) start exact_start labels
  cases made : step maxSizeInBytes state label with
  | some next => exact (exact_step exactly label made).mp (kept next made)
  | none =>
    cases label with
    | getUpdates => cases made
    | addUpdates updates => cases made
    | clearUpdates => cases made
    | replaceUpdates read updatesToAdd now =>
      intro stored isRead
      cases (Option.map_eq_none_iff.mp made).symm.trans isRead

section Branches

def update : JsString := [97, 98]

def merged : JsString := [99]

/-- The last update to remove stays in the list, and its bytes are no longer counted. -/
theorem replaced_update_stays : ¬ Throughout (step none) Exact start
    [.addUpdates [(update, 5)], .getUpdates, .replaceUpdates 0 [(merged, 6)] 6] := by
  intro all
  have size := (all.last _ rfl).size
  revert size
  decide

end Branches

end CasualOS.RedisUpdates

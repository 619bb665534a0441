import CasualOS.JsString
import CasualOS.Lib.OrderedMap
import CasualOS.Lib.Run
import CasualOS.Lib.SortedLists

/-! `MemoryApiaryConnectionStore`: connections to namespaces in two families of sorted lists. -/

namespace CasualOS.ConnectionStore

open OrderedMap SortedLists Run

structure DeviceConnection where
  connectionId : JsString
  sessionId : JsString
  username : JsString
  token : JsString
  deriving DecidableEq

/-- The field `inNamespace` is `namespace` in the source. -/
structure DeviceNamespaceConnection extends DeviceConnection where
  inNamespace : JsString
  temporary : Bool
  deriving DecidableEq

structure MemoryApiaryConnectionStore where
  namespaceMap : List (JsString × List DeviceNamespaceConnection)
  connectionMap : List (JsString × List DeviceNamespaceConnection)
  connections : List (JsString × DeviceConnection)

inductive Label where
  | saveNamespaceConnection (connection : DeviceNamespaceConnection)
  | deleteNamespaceConnection (connectionId branch : JsString)
  | clearConnection (connectionId : JsString)

section Store

variable (sortedIndexBy : List JsString → JsString → Nat) (s : MemoryApiaryConnectionStore)

def getNamespaceList (branch : JsString) : List DeviceNamespaceConnection :=
  (lookup branch s.namespaceMap).getD []

def getConnectionList (connectionId : JsString) : List DeviceNamespaceConnection :=
  (lookup connectionId s.connectionMap).getD []

def setNamespaceList (branch : JsString) (list : List DeviceNamespaceConnection) : MemoryApiaryConnectionStore :=
  { s with namespaceMap := assign branch list s.namespaceMap }

def setConnectionList (connectionId : JsString) (list : List DeviceNamespaceConnection) :
    MemoryApiaryConnectionStore :=
  { s with connectionMap := assign connectionId list s.connectionMap }

def saveNamespaceConnection (connection : DeviceNamespaceConnection) : MemoryApiaryConnectionStore :=
  setConnectionList
    (setNamespaceList s connection.inNamespace
      (insertSorted sortedIndexBy (·.connectionId) connection (getNamespaceList s connection.inNamespace)))
    connection.connectionId
    (insertSorted sortedIndexBy (·.inNamespace) connection (getConnectionList s connection.connectionId))

/-- The store that the call leaves, and whether it threw: an index past the end is read. The lists that
were missing have been made by then. -/
def deleteNamespaceConnection (connectionId branch : JsString) : MemoryApiaryConnectionStore × Bool :=
  let made := setConnectionList (setNamespaceList s branch (getNamespaceList s branch)) connectionId
    (getConnectionList s connectionId)
  match deleteSorted sortedIndexBy (·.connectionId) connectionId (getNamespaceList s branch) with
  | none => (made, true)
  | some namespaceList =>
    match deleteSorted sortedIndexBy (·.inNamespace) branch (getConnectionList s connectionId) with
    | none => (setNamespaceList made branch namespaceList, true)
    | some connectionList =>
      (setConnectionList (setNamespaceList made branch namespaceList) connectionId connectionList, false)

/-- The loop of `clearConnection` over the connection's list. -/
def clearNamespaces (connectionId : JsString) (s : MemoryApiaryConnectionStore) :
    List DeviceNamespaceConnection → MemoryApiaryConnectionStore × Bool
  | [] => (s, false)
  | connection :: rest =>
    let namespaceList := getNamespaceList s connection.inNamespace
    let namespaceIndex := sortedIndexBy (namespaceList.map (·.connectionId)) connection.connectionId
    match deleteAt (·.connectionId) namespaceIndex connectionId namespaceList with
    | none => (setNamespaceList s connection.inNamespace namespaceList, true)
    | some list => clearNamespaces connectionId (setNamespaceList s connection.inNamespace list) rest

def clearConnection (connectionId : JsString) : MemoryApiaryConnectionStore × Bool :=
  match clearNamespaces sortedIndexBy connectionId s (getConnectionList s connectionId) with
  | (left, true) => (left, true)
  | (left, false) =>
    ({ setConnectionList left connectionId [] with connections := remove connectionId left.connections }, false)

end Store

/-- The store after some calls, what they last saved for each pair, and whether one of them threw. -/
structure Calls where
  store : MemoryApiaryConnectionStore
  saved : JsString → JsString → Option DeviceNamespaceConnection
  threw : Bool

def start : Calls :=
  { store := { namespaceMap := [], connectionMap := [], connections := [] }
    saved := fun _ _ => none
    threw := false }

def step (sortedIndexBy : List JsString → JsString → Nat) (s : Calls) : Label → Option Calls
  | .saveNamespaceConnection connection => some { s with
      store := saveNamespaceConnection sortedIndexBy s.store connection
      saved := fun branch id =>
        if branch = connection.inNamespace ∧ id = connection.connectionId then some connection
        else s.saved branch id }
  | .deleteNamespaceConnection connectionId inBranch =>
    let made := deleteNamespaceConnection sortedIndexBy s.store connectionId inBranch
    some
      { store := made.1
        saved := fun branch id => if branch = inBranch ∧ id = connectionId then none else s.saved branch id
        threw := s.threw || made.2 }
  | .clearConnection connectionId =>
    let made := clearConnection sortedIndexBy s.store connectionId
    some
      { store := made.1
        saved := fun branch id => if id = connectionId then none else s.saved branch id
        threw := s.threw || made.2 }

/-- No call threw, all lists are strictly sorted, and a pair is in the list of its namespace and in that
of its connection as it was last saved, or in neither. -/
structure Consistent (s : Calls) : Prop where
  returned : s.threw = false
  byConnection : ∀ branch, SortedBy (·.connectionId) (getNamespaceList s.store branch)
  byNamespace : ∀ id, SortedBy (·.inNamespace) (getConnectionList s.store id)
  listed : ∀ branch id, findKey (·.connectionId) id (getNamespaceList s.store branch) = s.saved branch id
  indexed : ∀ branch id, findKey (·.inNamespace) branch (getConnectionList s.store id) = s.saved branch id

/-- What is saved is not there with another record, and where a pair is deleted both lists have a key
that is not below it. -/
def Allowed (s : Calls) : Label → Prop
  | .saveNamespaceConnection connection =>
    ∀ record ∈ s.saved connection.inNamespace connection.connectionId, record = connection
  | .deleteNamespaceConnection connectionId branch =>
    (∃ record ∈ getNamespaceList s.store branch, connectionId ≤ record.connectionId) ∧
      ∃ record ∈ getConnectionList s.store connectionId, branch ≤ record.inNamespace
  | .clearConnection _ => True

instance (s : Calls) : (label : Label) → Decidable (Allowed s label)
  | .saveNamespaceConnection connection => inferInstanceAs (Decidable
      (∀ record ∈ s.saved connection.inNamespace connection.connectionId, record = connection))
  | .deleteNamespaceConnection connectionId branch => inferInstanceAs (Decidable
      ((∃ record ∈ getNamespaceList s.store branch, connectionId ≤ record.connectionId) ∧
        ∃ record ∈ getConnectionList s.store connectionId, branch ≤ record.inNamespace))
  | .clearConnection _ => .isTrue trivial

section Lists

variable (s : MemoryApiaryConnectionStore) (branch id other : JsString) (list : List DeviceNamespaceConnection)

@[simp] theorem getNamespaceList_setNamespaceList : getNamespaceList (setNamespaceList s branch list) other =
    if other = branch then list else getNamespaceList s other := by
  rw [getNamespaceList, setNamespaceList, lookup_assign]
  split <;> rfl

@[simp] theorem getNamespaceList_setConnectionList :
    getNamespaceList (setConnectionList s id list) other = getNamespaceList s other := rfl

@[simp] theorem getConnectionList_setNamespaceList :
    getConnectionList (setNamespaceList s branch list) other = getConnectionList s other := rfl

@[simp] theorem getConnectionList_setConnectionList : getConnectionList (setConnectionList s id list) other =
    if other = id then list else getConnectionList s other := by
  rw [getConnectionList, setConnectionList, lookup_assign]
  split <;> rfl

end Lists

section Calls

variable {sortedIndexBy : List JsString → JsString → Nat} {s next : Calls}

theorem consistent_start : Consistent start where
  returned := rfl
  byConnection _ := List.Pairwise.nil
  byNamespace _ := List.Pairwise.nil
  listed _ _ := rfl
  indexed _ _ := rfl

theorem consistent_saved (lowest : Lowest sortedIndexBy) (consistent : Consistent s)
    (connection : DeviceNamespaceConnection)
    (ran : step sortedIndexBy s (.saveNamespaceConnection connection) = some next) :
    Consistent next ↔ Allowed s (.saveNamespaceConnection connection) := by
  cases ran
  have inList := insert_spec lowest (consistent.byConnection connection.inNamespace) connection
  have inIndex := insert_spec lowest (consistent.byNamespace connection.connectionId) connection
  simp only [consistent.listed, consistent.indexed] at inList inIndex
  constructor
  · intro kept record isSaved
    have before : s.saved connection.inNamespace connection.connectionId = some record := isSaved
    have now := kept.listed connection.inNamespace connection.connectionId
    simp only [saveNamespaceConnection, getNamespaceList_setConnectionList, getNamespaceList_setNamespaceList,
      if_true, and_self, inList.2, before, Option.getD_some, Option.some.injEq] at now
    exact now
  · intro allowed
    have same : (s.saved connection.inNamespace connection.connectionId).getD connection = connection := by
      cases before : s.saved connection.inNamespace connection.connectionId with
      | none => rfl
      | some record => exact allowed record before
    refine ⟨consistent.returned, fun branch => ?_, fun id => ?_, fun branch id => ?_, fun branch id => ?_⟩
    · simp only [saveNamespaceConnection, getNamespaceList_setConnectionList, getNamespaceList_setNamespaceList]
      split
      · exact inList.1
      · exact consistent.byConnection branch
    · simp only [saveNamespaceConnection, getConnectionList_setConnectionList, getConnectionList_setNamespaceList]
      split
      · exact inIndex.1
      · exact consistent.byNamespace id
    · simp only [saveNamespaceConnection, getNamespaceList_setConnectionList, getNamespaceList_setNamespaceList]
      by_cases isBranch : branch = connection.inNamespace
      · subst isBranch
        rw [if_pos rfl, inList.2]
        by_cases isId : id = connection.connectionId
        · subst isId
          simp [same]
        · simp [isId]
      · simp [isBranch, consistent.listed]
    · simp only [saveNamespaceConnection, getConnectionList_setConnectionList, getConnectionList_setNamespaceList]
      by_cases isId : id = connection.connectionId
      · subst isId
        rw [if_pos rfl, inIndex.2]
        by_cases isBranch : branch = connection.inNamespace
        · subst isBranch
          simp [same]
        · simp [isBranch]
      · simp [isId, consistent.indexed]

theorem consistent_deleted (lowest : Lowest sortedIndexBy) (consistent : Consistent s) (connectionId inBranch : JsString)
    (ran : step sortedIndexBy s (.deleteNamespaceConnection connectionId inBranch) = some next) :
    Consistent next ↔ Allowed s (.deleteNamespaceConnection connectionId inBranch) := by
  cases ran
  have inList := delete_isSome lowest (consistent.byConnection inBranch) connectionId
  have inIndex := delete_isSome lowest (consistent.byNamespace connectionId) inBranch
  rw [Allowed, ← inList, ← inIndex]
  cases list : deleteSorted sortedIndexBy (·.connectionId) connectionId (getNamespaceList s.store inBranch) with
  | none =>
    refine iff_of_false (fun kept => ?_) (fun both => Bool.noConfusion both.1)
    have threw := kept.returned
    simp [deleteNamespaceConnection, list] at threw
  | some namespaceList =>
    cases index : deleteSorted sortedIndexBy (·.inNamespace) inBranch (getConnectionList s.store connectionId) with
    | none =>
      refine iff_of_false (fun kept => ?_) (fun both => Bool.noConfusion both.2)
      have threw := kept.returned
      simp [deleteNamespaceConnection, list, index] at threw
    | some connectionList =>
      refine iff_of_true ?_ ⟨rfl, rfl⟩
      obtain ⟨sortedList, foundList⟩ := delete_spec lowest (consistent.byConnection inBranch) list
      obtain ⟨sortedIndex, foundIndex⟩ := delete_spec lowest (consistent.byNamespace connectionId) index
      simp only [deleteNamespaceConnection, list, index, consistent.returned, Bool.or_self]
      refine ⟨rfl, fun branch => ?_, fun id => ?_, fun branch id => ?_, fun branch id => ?_⟩
      · by_cases isBranch : branch = inBranch
        · simpa [isBranch] using sortedList
        · simpa [isBranch] using consistent.byConnection branch
      · by_cases isId : id = connectionId
        · simpa [isId] using sortedIndex
        · simpa [isId] using consistent.byNamespace id
      · by_cases isBranch : branch = inBranch
        · simp [isBranch, foundList, consistent.listed]
        · simp [isBranch, consistent.listed]
      · by_cases isId : id = connectionId
        · simp [isId, foundIndex, consistent.indexed]
        · simp [isId, consistent.indexed]

theorem clearNamespaces_spec (lowest : Lowest sortedIndexBy) {id : JsString} (list : List DeviceNamespaceConnection)
    (s : MemoryApiaryConnectionStore) (sorted : ∀ branch, SortedBy (·.connectionId) (getNamespaceList s branch))
    (own : ∀ record ∈ list, record.connectionId = id ∧
      (findKey (·.connectionId) id (getNamespaceList s record.inNamespace)).isSome = true)
    (distinct : (list.map (·.inNamespace)).Nodup) :
    ∃ left, clearNamespaces sortedIndexBy id s list = (left, false) ∧ left.connectionMap = s.connectionMap ∧
      (∀ branch, SortedBy (·.connectionId) (getNamespaceList left branch)) ∧
      ∀ branch other, findKey (·.connectionId) other (getNamespaceList left branch) =
        if other = id ∧ branch ∈ list.map (·.inNamespace) then none
        else findKey (·.connectionId) other (getNamespaceList s branch) := by
  induction list generalizing s with
  | nil => exact ⟨s, rfl, rfl, sorted, fun branch other => by simp⟩
  | cons record rest ih =>
    obtain ⟨isOwn, present⟩ := own record List.mem_cons_self
    obtain ⟨outside, distinctRest⟩ := List.nodup_cons.mp distinct
    obtain ⟨item, found⟩ := Option.isSome_iff_exists.mp present
    have notBelow : ∃ other ∈ getNamespaceList s record.inNamespace, id ≤ other.connectionId :=
      ⟨item, mem_of_find found, (key_of_find found).ge⟩
    obtain ⟨namespaceList, ran⟩ := Option.isSome_iff_exists.mp
      ((delete_isSome lowest (sorted record.inNamespace) id).mpr notBelow)
    obtain ⟨sortedList, foundList⟩ := delete_spec lowest (sorted record.inNamespace) ran
    have sortedAll : ∀ branch, SortedBy (·.connectionId)
        (getNamespaceList (setNamespaceList s record.inNamespace namespaceList) branch) := by
      intro branch
      by_cases isBranch : branch = record.inNamespace
      · simpa [isBranch] using sortedList
      · simpa [isBranch] using sorted branch
    obtain ⟨left, cleared, sameMap, sortedLeft, foundLeft⟩ := ih _ sortedAll (by
      intro other inside
      refine ⟨(own other (List.mem_cons_of_mem _ inside)).1, ?_⟩
      have apart : other.inNamespace ≠ record.inNamespace := fun same =>
        outside (List.mem_map.mpr ⟨other, inside, same⟩)
      simpa [apart] using (own other (List.mem_cons_of_mem _ inside)).2) distinctRest
    refine ⟨left, ?_, sameMap, sortedLeft, fun branch other => ?_⟩
    · rw [deleteSorted] at ran
      rw [clearNamespaces, isOwn]
      simp only [ran]
      exact cleared
    · rw [foundLeft branch other]
      by_cases isBranch : branch = record.inNamespace
      · subst isBranch
        by_cases isId : other = id <;> simp [isId, foundList, outside]
      · by_cases isId : other = id <;> simp [isId, isBranch]

theorem consistent_cleared (lowest : Lowest sortedIndexBy) (consistent : Consistent s) (connectionId : JsString)
    (ran : step sortedIndexBy s (.clearConnection connectionId) = some next) : Consistent next := by
  cases ran
  have sorted := consistent.byNamespace connectionId
  have savedAt : ∀ record ∈ getConnectionList s.store connectionId,
      s.saved record.inNamespace connectionId = some record := by
    intro record inside
    rw [← consistent.indexed]
    exact find_of_mem sorted inside
  have own : ∀ record ∈ getConnectionList s.store connectionId, record.connectionId = connectionId ∧
      (findKey (·.connectionId) connectionId (getNamespaceList s.store record.inNamespace)).isSome = true := by
    intro record inside
    have found := (consistent.listed record.inNamespace connectionId).trans (savedAt record inside)
    exact ⟨@key_of_find _ _ _ (fun one : DeviceNamespaceConnection => one.connectionId) _ _ _ found, found ▸ rfl⟩
  obtain ⟨left, cleared, sameMap, sortedLeft, foundLeft⟩ :=
    clearNamespaces_spec lowest _ s.store consistent.byConnection own sorted.nodup
  have sameLists : ∀ id, getConnectionList left id = getConnectionList s.store id := by
    intro id
    rw [getConnectionList, sameMap, getConnectionList]
  simp only [clearConnection, cleared, consistent.returned, Bool.or_self]
  refine ⟨rfl, sortedLeft, fun id => ?_, fun branch id => ?_, fun branch id => ?_⟩
  · change SortedBy _ (getConnectionList (setConnectionList left connectionId []) id)
    rw [getConnectionList_setConnectionList]
    split
    · exact List.Pairwise.nil
    · rw [sameLists]
      exact consistent.byNamespace id
  · refine (foundLeft branch id).trans ?_
    by_cases isId : id = connectionId
    · subst isId
      by_cases inside : branch ∈ (getConnectionList s.store id).map (·.inNamespace)
      · simp [inside]
      · have absent : s.saved branch id = none := by
          rw [← consistent.indexed, find_eq_none]
          exact fun record isRecord same => inside (List.mem_map.mpr ⟨record, isRecord, same⟩)
        simp [inside, consistent.listed, absent]
    · simp [isId, consistent.listed]
  · change findKey _ branch (getConnectionList (setConnectionList left connectionId []) id) = _
    rw [getConnectionList_setConnectionList]
    by_cases isId : id = connectionId
    · simp [isId, findKey]
    · simp [isId, sameLists, consistent.indexed]

end Calls

/-- Exactly in the runs in which no pair is saved again with another record, and where a pair is deleted
both lists reach past it, no call throws and both families of lists are those of what was last saved. -/
theorem one_relation (sortedIndexBy : List JsString → JsString → Nat) (lowest : Lowest sortedIndexBy)
    (labels : List Label) : Throughout (step sortedIndexBy) Consistent start labels ↔
      AllAllowed (step sortedIndexBy) Allowed start labels := by
  have judged : ∀ state label next, Consistent state → step sortedIndexBy state label = some next →
      (Consistent next ↔ Allowed state label) := by
    intro state label next consistent ran
    cases label with
    | saveNamespaceConnection connection => exact consistent_saved lowest consistent connection ran
    | deleteNamespaceConnection connectionId branch => exact consistent_deleted lowest consistent connectionId branch ran
    | clearConnection connectionId => exact iff_of_true (consistent_cleared lowest consistent connectionId ran) trivial
  refine throughout_iff (fun state (consistent : Consistent state) => consistent)
    (fun state label next consistent allowed ran => (judged state label next consistent ran).mpr allowed)
    (fun state label consistent kept => ?_) start consistent_start labels
  obtain ⟨next, ran⟩ : ∃ next, step sortedIndexBy state label = some next := by
    cases label <;> exact ⟨_, rfl⟩
  exact (judged state label next consistent ran).mp (kept next ran)

section Connections

def first : JsString := [97]

def second : JsString := [98]

def connection (connectionId branch : JsString) : DeviceNamespaceConnection :=
  { connectionId := connectionId, sessionId := connectionId, username := [117], token := [116], inNamespace := branch,
    temporary := false }

/-- Two connections share two namespaces, one is deleted from one of them and the other is cleared. -/
theorem shared_consistent : Throughout (step countBelow) Consistent start
    [.saveNamespaceConnection (connection second first), .saveNamespaceConnection (connection first first),
      .saveNamespaceConnection (connection first second), .saveNamespaceConnection (connection second second),
      .deleteNamespaceConnection first first, .clearConnection second, .clearConnection first] :=
  (one_relation countBelow lowest_countBelow _).mpr (by decide)

/-- A connection is deleted from a namespace that it was never saved in. -/
theorem unwatch_throws : ¬ Throughout (step countBelow) Consistent start
    [.deleteNamespaceConnection first first] := by
  intro all
  have returned := (all.last _ rfl).returned
  revert returned
  decide

end Connections

end CasualOS.ConnectionStore

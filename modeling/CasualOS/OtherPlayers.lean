import CasualOS.MemoryPartition

/-! The partitions of the other players, loaded and unloaded while their devices come and go. -/

namespace CasualOS.OtherPlayers

open OrderedMap TagEdit Run
open MemoryPartition (emptyBot maskOf tagOf)
open List (mem_map mem_singleton)
open Option (some bind_eq_some_iff bind_some isSome_iff_exists some_ne_none)

/-- A partition that `_loadPartition` creates: not ready before its promise resolves. -/
structure Child where
  session : JsString
  ready : Bool
  subscribed : Bool
  state : BotsState

/-- The maps name the children by the order in which they were created. A pending unload awaits the
promise that it found. The listener has all updates applied to the empty state. -/
structure Players where
  devices : List (JsString × Nat)
  children : List Child
  promises : List (JsString × Nat)
  partitions : List (JsString × Nat)
  subs : List (JsString × Nat)
  unloads : List (JsString × Nat)
  state : BotsState
  listener : BotsState

inductive Label where
  | connected (session : JsString)
  | disconnected (session : JsString)
  | loaded (child : Nat)
  | unload (index : Nat)
  | update (child : Nat) (update : PartialBotsState)

def start : Players :=
  { devices := [], children := [], promises := [], partitions := [], subs := [], unloads := [], state := [],
    listener := [] }

def registerDevice (devices : List (JsString × Nat)) (session : JsString) : List (JsString × Nat) :=
  match lookup session devices with
  | some count => assign session (count + 1) devices
  | none => assign session 1 devices

def unregisterDevice (devices : List (JsString × Nat)) (session : JsString) : List (JsString × Nat) :=
  match lookup session devices with
  | some count => if count - 1 ≤ 0 then remove session devices else assign session (count - 1) devices
  | none => devices

/-- `_tryLoadBranchForDevice` up to the await of the new partition. -/
def tryLoad (s : Players) (session : JsString) : Players :=
  if (lookup session s.promises).isSome then s
  else { s with
    children := s.children ++ [{ session := session, ready := false, subscribed := false, state := [] }]
    promises := assign session s.children.length s.promises }

/-- `_tryUnloadBranchForDevice` up to the await of the promise. -/
def tryUnload (s : Players) (session : JsString) : Players :=
  match lookup session s.promises with
  | none => s
  | some child => { s with unloads := s.unloads ++ [(session, child)] }

/-- The rest of `_loadPartition`: a new partition has no bots, its updates come later. -/
def load (s : Players) (n : Nat) (child : Child) : Players :=
  { s with
    children := s.children.set n { child with ready := true, subscribed := true }
    partitions := assign child.session n s.partitions
    subs := assign child.session n s.subs }

def unsubscribe (children : List Child) : Option Nat → List Child
  | none => children
  | some n => children.modify n fun child => { child with subscribed := false }

def idsOf (state : BotsState) : List JsString := (state.map Prod.fst).dedup

def hasId (bot : Bot) : Bool := bot.id.any fun id => !id.isEmpty

def nulls (tags : Fields) : Fields := tags.map fun tag => (tag.1, .null)

def unloadEntry (space : JsString) (id : JsString) (bot : Bot) : PartialBotsState :=
  if hasId bot then [(id, none)]
  else match (lookup space (bot.masks.getD [])).getD [] with
    | [] => []
    | tags => [(id, some { emptyBot with masks := some [(space, nulls tags)] })]

def unloadBots (space : JsString) (state : BotsState) : List JsString → Option (PartialBotsState × BotsState)
  | [] => some ([], state)
  | id :: rest => (lookup id state).bind fun bot =>
    (unloadBots space (remove id state) rest).map fun made => (unloadEntry space id bot ++ made.1, made.2)

/-- The rest of `_tryUnloadBranchForDevice`; an empty update leaves the listener as it is. -/
def unloadChild (space : JsString) (s : Players) (session : JsString) (child : Child) : Option Players :=
  (unloadBots space s.state (idsOf child.state)).bind fun made =>
    (apply s.listener made.1).map fun listener =>
      { s with
        children := unsubscribe s.children (lookup session s.subs)
        promises := remove session s.promises
        partitions := remove session s.partitions
        subs := remove session s.subs
        state := made.2
        listener := listener }

def updateChild (s : Players) (n : Nat) (child : Child) (update : PartialBotsState) : Option Players :=
  (apply child.state update).bind fun own =>
    (apply s.state update).bind fun state =>
      (apply s.listener update).map fun listener =>
        { s with children := s.children.set n { child with state := own }, state := state, listener := listener }

def step (user space : JsString) (s : Players) : Label → Option Players
  | .connected session =>
    if session = user then some s
    else some (tryLoad { s with devices := registerDevice s.devices session } session)
  | .disconnected session =>
    if session = user then some s
    else some (tryUnload { s with devices := unregisterDevice s.devices session } session)
  | .loaded n => (s.children[n]?).bind fun child => if child.ready then none else some (load s n child)
  | .unload index => (s.unloads[index]?).bind fun pending => (s.children[pending.2]?).bind fun child =>
    if child.ready then
      unloadChild space { s with unloads := s.unloads.eraseIdx index } pending.1 child
    else none
  | .update n update => (s.children[n]?).bind fun child =>
    if child.subscribed then updateChild s n child update else none

/-- The step is there to be made: a promise has resolved, or a partition is subscribed to. -/
def Possible (s : Players) : Label → Prop
  | .connected _ => True
  | .disconnected _ => True
  | .loaded n => ∃ child, s.children[n]? = some child ∧ child.ready = false
  | .unload index => ∃ pending child, s.unloads[index]? = some pending ∧ s.children[pending.2]? = some child ∧
      child.ready = true
  | .update n _ => ∃ child, s.children[n]? = some child ∧ child.subscribed = true

/-- No load and no unload is pending. -/
def Settled (s : Players) : Prop := (∀ child ∈ s.children, child.ready = true) ∧ s.unloads = []

/-! ### The union of states -/

/-- A place of a bot that has one value. -/
inductive Field where
  | id
  | space
  | tag (name : JsString)
  | mask (space name : JsString)
  | signature (hash : JsString)

/-- A signature that is `null` is none. -/
def read (record : Option Bot) : Field → Option Json
  | .id => (record.bind (·.id)).map .string
  | .space => (record.bind (·.space)).map .string
  | .tag name => tagOf record name
  | .mask space name => maskOf space record name
  | .signature hash => (lookup hash ((record.bind (·.signatures)).getD [])).join.map .string

def Loaded (s : Players) (n : Nat) (child : Child) : Prop :=
  lookup child.session s.partitions = some n ∧ s.children[n]? = some child

/-- The state has every value of a loaded partition, and no other. -/
def Union (s : Players) : Prop :=
  ∀ id field value, read (lookup id s.state) field = some value ↔
    ∃ n child, Loaded s n child ∧ read (lookup id child.state) field = some value

def Follows (s : Players) : Prop :=
  ∀ id field, read (lookup id s.listener) field = read (lookup id s.state) field

/-! ### The runs without loss -/

def Others (s : Players) (n : Nat) (id : JsString) (field : Field) : Prop :=
  ∀ other child, other ≠ n → Loaded s other child → read (lookup id child.state) field = none

/-- The part of a bot names the field. -/
def Named (part : Bot) : Field → Prop
  | .id => False
  | .space => False
  | .tag name => lookup name (part.tags.getD []) ≠ none
  | .mask space name => lookup name ((lookup space (part.masks.getD [])).getD []) ≠ none
  | .signature hash => lookup hash (part.signatures.getD []) ≠ none

/-- The record is there for the child when it is there for the state and the listener. -/
def SameRecords (s : Players) (child : Child) (id : JsString) : Prop :=
  (lookup id child.state).isSome = (lookup id s.state).isSome ∧
    (lookup id s.listener).isSome = (lookup id s.state).isSome

/-- A bot is removed that no other partition has values of; a part of one names no value that another
partition has, and has no id, unless nothing is there of the bot. -/
def Fits (s : Players) (n : Nat) (child : Child) (update : PartialBotsState) : Prop :=
  ReadableUpdate update ∧ ∀ id, (lookup id update = some none → ∀ field, Others s n id field) ∧
    ∀ part, lookup id update = some (some part) → (∀ field, Named part field → Others s n id field) ∧
      (part.id = none ∧ part.space = none ∨ SameRecords s child id)

/-- The bots that the partition has are in the state, no other partition has values of them, and those
that are no bots have masks of the space alone. -/
def Leaves (space : JsString) (s : Players) (n : Nat) (child : Child) : Prop :=
  ∀ id, (lookup id child.state).isSome = true → (∀ field, Others s n id field) ∧
    ∃ bot, lookup id s.state = some bot ∧ (hasId bot = true ∨
      ∀ field, read (some bot) field ≠ none → ∃ name, field = .mask space name)

def Allowed (user space : JsString) (s : Players) : Label → Prop
  | .connected session => session = user ∨ ∀ n, (session, n) ∉ s.unloads
  | .disconnected session => session = user ∨ lookup session s.devices = some 1 ∨
      lookup session s.devices = none ∧ ∀ n, (session, n) ∉ s.unloads
  | .loaded _ => True
  | .unload index => ∀ pending child, s.unloads[index]? = some pending → s.children[pending.2]? = some child →
      child.ready = true → Leaves space s pending.2 child
  | .update n update => ∀ child, s.children[n]? = some child → child.subscribed = true → Fits s n child update

/-! ### Values of records -/

section Values

variable {part : Bot} {first second : Option Bot} {field : Field}

theorem tagOf_applyBot (old : Option Bot) (part : Bot) (name : JsString) :
    tagOf (some (applyBot old part)) name = setTag (tagOf old name) (lookup name (part.tags.getD [])) :=
  lookup_setAll setTag_none (old.bind (·.tags)) part.tags name

theorem maskOf_applyBot (old : Option Bot) (part : Bot) (space name : JsString) :
    maskOf space (some (applyBot old part)) name = setTag (maskOf space old name)
      (lookup name ((lookup space (part.masks.getD [])).getD [])) := by
  have spaces : lookup space ((dropEmpty (setAll setSpace (old.bind (·.masks)) part.masks)).getD []) =
      setSpace (lookup space ((old.bind (·.masks)).getD [])) (lookup space (part.masks.getD [])) := by
    rw [getD_dropEmpty, lookup_setAll setSpace_none]
  have whole : maskOf space (some (applyBot old part)) name =
      lookup name ((lookup space ((dropEmpty (setAll setSpace (old.bind (·.masks)) part.masks)).getD [])).getD []) :=
    rfl
  rw [whole, spaces, maskOf]
  cases lookup space (part.masks.getD []) with
  | none => rfl
  | some tags => rw [setSpace, getD_dropEmpty, Option.getD_some, Option.getD_some, lookup_combine (setTag_none none)]

theorem signature_applyBot (old : Option Bot) (part : Bot) (hash : JsString) :
    lookup hash ((applyBot old part).signatures.getD []) =
      setSignature (lookup hash ((old.bind (·.signatures)).getD [])) (lookup hash (part.signatures.getD [])) := by
  rw [applyBot, getD_dropEmpty, lookup_setAll setSignature_none]

theorem join_setSignature (old : Option (Option JsString)) (new : Option JsString) :
    (setSignature old (some new)).join = new := by
  cases new <;> rfl

theorem read_congr (same : read first field = read second field)
    (records : part.id = none ∧ part.space = none ∨ first.isSome = second.isSome) :
    read (some (applyBot first part)) field = read (some (applyBot second part)) field := by
  cases field with
  | tag name => exact (tagOf_applyBot _ _ _).trans ((congrArg (setTag · _) same).trans (tagOf_applyBot _ _ _).symm)
  | mask space name =>
    exact (maskOf_applyBot _ _ _ _).trans ((congrArg (setTag · _) same).trans (maskOf_applyBot _ _ _ _).symm)
  | signature hash =>
    simp only [read, bind_some, signature_applyBot] at same ⊢
    cases named : lookup hash (part.signatures.getD []) with
    | none => exact same
    | some new => rw [join_setSignature, join_setSignature]
  | id =>
    cases first with
    | none =>
      cases second with
      | none => rfl
      | some old =>
        rcases records with ⟨noId, _⟩ | impossible
        · refine Eq.trans ?_ same
          exact congrArg (Option.map Json.string) noId
        · cases impossible
    | some old =>
      cases second with
      | none =>
        rcases records with ⟨noId, _⟩ | impossible
        · refine Eq.trans same ?_
          exact (congrArg (Option.map Json.string) noId).symm
        · cases impossible
      | some other => exact same
  | space =>
    cases first with
    | none =>
      cases second with
      | none => rfl
      | some old =>
        rcases records with ⟨_, noSpace⟩ | impossible
        · refine Eq.trans ?_ same
          exact congrArg (Option.map Json.string) noSpace
        · cases impossible
    | some old =>
      cases second with
      | none =>
        rcases records with ⟨_, noSpace⟩ | impossible
        · refine Eq.trans same ?_
          exact (congrArg (Option.map Json.string) noSpace).symm
        · cases impossible
      | some other => exact same

theorem read_unnamed (unnamed : ¬ Named part field)
    (records : part.id = none ∧ part.space = none ∨ first.isSome = true) :
    read (some (applyBot first part)) field = read first field := by
  cases field with
  | tag name =>
    have missing : lookup name (part.tags.getD []) = none := not_not.mp unnamed
    refine (tagOf_applyBot _ _ _).trans ?_
    rw [missing]
    rfl
  | mask space name =>
    have missing : lookup name ((lookup space (part.masks.getD [])).getD []) = none := not_not.mp unnamed
    refine (maskOf_applyBot _ _ _ _).trans ?_
    rw [missing]
    rfl
  | signature hash =>
    have missing : lookup hash (part.signatures.getD []) = none := not_not.mp unnamed
    simp only [read, bind_some, signature_applyBot, missing]
    rfl
  | id =>
    cases first with
    | some old => rfl
    | none =>
      rcases records with ⟨noId, _⟩ | impossible
      · exact congrArg (Option.map Json.string) noId
      · cases impossible
  | space =>
    cases first with
    | some old => rfl
    | none =>
      rcases records with ⟨_, noSpace⟩ | impossible
      · exact congrArg (Option.map Json.string) noSpace
      · cases impossible

theorem read_none (field : Field) : read none field = none := by
  cases field <;> rfl

theorem isSome_of_read {record : Option Bot} (value : read record field ≠ none) : record.isSome = true := by
  cases record with
  | none => exact absurd (read_none field) value
  | some bot => rfl

end Values

/-! ### Updates of a partition -/

section Updates

variable {s : Players} {n : Nat} {child : Child} {update : PartialBotsState} {own state listener : BotsState}

def updated (s : Players) (n : Nat) (child : Child) (own state listener : BotsState) : Players :=
  { s with children := s.children.set n { child with state := own }, state := state, listener := listener }

theorem getElem?_replaced {children : List Child} (inside : children[n]? = some child) {new other : Child} {m : Nat} :
    (children.set n new)[m]? = some other ↔ m = n ∧ other = new ∨ m ≠ n ∧ children[m]? = some other := by
  have bound : n < children.length := (List.getElem?_eq_some_iff.mp inside).1
  rw [List.getElem?_set]
  by_cases same : n = m
  · subst same
    simp [bound, eq_comm]
  · simp [same, Ne.symm same]

theorem loaded_set {s' : Players} {next : Child} (inside : s.children[n]? = some child)
    (session : next.session = child.session) (partitions : s'.partitions = s.partitions)
    (children : s'.children = s.children.set n next) {m : Nat} {other : Child} :
    Loaded s' m other ↔ (m = n ∧ other = next ∧ Loaded s n child) ∨ (m ≠ n ∧ Loaded s m other) := by
  unfold Loaded
  rw [partitions, children, getElem?_replaced inside]
  constructor
  · rintro ⟨placed, ⟨same, isNext⟩ | ⟨apart, old⟩⟩
    · subst same isNext
      exact .inl ⟨rfl, rfl, session ▸ placed, inside⟩
    · exact .inr ⟨apart, placed, old⟩
  · rintro (⟨same, isNext, placed, _⟩ | ⟨apart, placed, old⟩)
    · subst same isNext
      exact ⟨session.symm ▸ placed, .inl ⟨rfl, rfl⟩⟩
    · exact ⟨placed, .inr ⟨apart, old⟩⟩

theorem read_alone (union : Union s) (loaded : Loaded s n child) {id : JsString} {field : Field}
    (others : Others s n id field) : read (lookup id s.state) field = read (lookup id child.state) field := by
  cases found : read (lookup id s.state) field with
  | some value =>
    obtain ⟨m, other, isLoaded, value'⟩ := (union id field value).mp found
    by_cases same : m = n
    · subst same
      have equal := isLoaded.2.symm.trans loaded.2
      cases equal
      exact value'.symm
    · rw [others m other same isLoaded] at value'
      cases value'
  | none =>
    cases own : read (lookup id child.state) field with
    | none => rfl
    | some value =>
      rw [(union id field value).mpr ⟨n, child, loaded, own⟩] at found
      cases found

theorem union_update (union : Union s) (loaded : Loaded s n child) (fits : Fits s n child update)
    (isOwn : apply child.state update = some own) (isState : apply s.state update = some state) :
    Union (updated s n child own state listener) := by
  have loaded_iff : ∀ m other, Loaded (updated s n child own state listener) m other ↔
      (m = n ∧ other = { child with state := own } ∧ Loaded s n child) ∨ (m ≠ n ∧ Loaded s m other) :=
    fun m other => @loaded_set s n child (updated s n child own state listener) { child with state := own }
      loaded.2 rfl rfl rfl m other
  intro id field value
  have stateAfter := lookup_apply isState id
  have ownAfter := lookup_apply isOwn id
  have whole : (∃ m other, Loaded (updated s n child own state listener) m other ∧
      read (lookup id other.state) field = some value) ↔ read (lookup id own) field = some value ∨
        ∃ m other, m ≠ n ∧ Loaded s m other ∧ read (lookup id other.state) field = some value := by
    constructor
    · rintro ⟨m, other, isLoaded, found⟩
      rcases (loaded_iff m other).mp isLoaded with ⟨_, isOther, _⟩ | ⟨apart, before⟩
      · subst isOther
        exact .inl found
      · exact .inr ⟨m, other, apart, before, found⟩
    · rintro (found | ⟨m, other, apart, before, found⟩)
      · exact ⟨n, _, (loaded_iff n _).mpr (.inl ⟨rfl, rfl, loaded⟩), found⟩
      · exact ⟨m, other, (loaded_iff m other).mpr (.inr ⟨apart, before⟩), found⟩
  rw [whole]
  change read (lookup id state) field = some value ↔ _
  rw [stateAfter, ownAfter]
  have before : read (lookup id s.state) field = some value ↔ read (lookup id child.state) field = some value ∨
      ∃ m other, m ≠ n ∧ Loaded s m other ∧ read (lookup id other.state) field = some value := by
    rw [union id field value]
    constructor
    · rintro ⟨m, other, isLoaded, found⟩
      by_cases same : m = n
      · subst same
        have equal := isLoaded.2.symm.trans loaded.2
        cases equal
        exact .inl found
      · exact .inr ⟨m, other, same, isLoaded, found⟩
    · rintro (found | ⟨m, other, _, isLoaded, found⟩)
      · exact ⟨n, child, loaded, found⟩
      · exact ⟨m, other, isLoaded, found⟩
  have alone : Others s n id field →
      ¬ ∃ m other, m ≠ n ∧ Loaded s m other ∧ read (lookup id other.state) field = some value := by
    rintro others ⟨m, other, apart, isLoaded, found⟩
    rw [others m other apart isLoaded] at found
    cases found
  cases entry : lookup id update with
  | none => exact before
  | some removedOr =>
    cases removedOr with
    | none =>
      have others := (fits.2 id).1 entry field
      rw [applyEntry, applyEntry, read_none]
      exact (or_iff_left (alone others)).symm
    | some part =>
      obtain ⟨named, records⟩ := (fits.2 id).2 part entry
      rw [applyEntry, applyEntry]
      by_cases others : Others s n id field
      · have same := read_alone union loaded others
        rw [or_iff_left (alone others), read_congr same (records.imp_right fun same => same.1.symm)]
      · have unnamed : ¬ Named part field := fun isNamed => others (named field isNamed)
        have known : (lookup id s.state).isSome = true := by
          by_contra missing
          apply others
          intro m other _ isLoaded
          cases found : read (lookup id other.state) field with
          | none => rfl
          | some w =>
            refine absurd (@isSome_of_read field _ ?_) missing
            rw [(union id field w).mpr ⟨m, other, isLoaded, found⟩]
            exact some_ne_none w
        rw [read_unnamed unnamed (records.imp_right fun _ => known),
          read_unnamed unnamed (records.imp_right fun same => same.1.trans known)]
        exact before

theorem follows_update (follows : Follows s) (fits : Fits s n child update)
    (isState : apply s.state update = some state) (isListener : apply s.listener update = some listener) :
    Follows (updated s n child own state listener) := by
  intro id field
  change read (lookup id listener) field = read (lookup id state) field
  rw [lookup_apply isListener id, lookup_apply isState id]
  cases entry : lookup id update with
  | none => exact follows id field
  | some removedOr =>
    cases removedOr with
    | none => rfl
    | some part => exact read_congr (follows id field) (((fits.2 id).2 part entry).2.imp_right fun same => same.2)

end Updates

/-! ### A partition is unloaded -/

section Unloading

variable {space : JsString} {s : Players} {n : Nat} {child : Child} {made : PartialBotsState × BotsState}
  {listener : BotsState}

theorem mem_idsOf (id : JsString) (state : BotsState) : id ∈ idsOf state ↔ (lookup id state).isSome = true := by
  rw [idsOf, List.mem_dedup, ← not_iff_not, ← lookup_eq_none_iff, Option.not_isSome_iff_eq_none]

variable {id : JsString}

theorem mem_unloadEntry {bot : Bot} {entry : JsString × Option Bot}
    (member : entry ∈ unloadEntry space id bot) : entry.1 = id ∧ ∀ part ∈ entry.2, part.Readable := by
  rw [unloadEntry] at member
  split at member
  · rw [mem_singleton.mp member]
    exact ⟨rfl, fun part removed => by cases removed⟩
  · split at member
    · cases member
    · next tags _ =>
        rw [mem_singleton.mp member]
        refine ⟨rfl, fun part isPart => ?_⟩
        cases isPart
        refine ⟨fun tag none => absurd none List.not_mem_nil, fun masks inside tag isTag edit => ?_⟩
        rw [mem_singleton.mp inside] at isTag
        obtain ⟨_, _, isNull⟩ := mem_map.mp isTag
        rw [← isNull] at edit
        cases edit

theorem lookup_unloadEntry {other : JsString} (apart : other ≠ id) (bot : Bot) :
    lookup other (unloadEntry space id bot) = none := by
  rw [lookup_eq_none_iff]
  intro inside
  obtain ⟨entry, member, same⟩ := mem_map.mp inside
  exact apart (same.symm.trans (mem_unloadEntry member).1)

theorem unloadBots_spec {ids : List JsString} (distinct : ids.Nodup) {state : BotsState}
    (held : ∀ id ∈ ids, (lookup id state).isSome = true) :
    ∃ made, unloadBots space state ids = some made ∧ ReadableUpdate made.1 ∧
      (∀ id, lookup id made.2 = if id ∈ ids then none else lookup id state) ∧
      ∀ id, lookup id made.1 =
        if id ∈ ids then (lookup id state).bind fun bot => lookup id (unloadEntry space id bot) else none := by
  induction ids generalizing state with
  | nil => exact ⟨([], state), rfl, fun _ none => (List.not_mem_nil none).elim, fun _ => rfl, fun _ => rfl⟩
  | cons first rest ih =>
    have apart : ∀ id ∈ rest, id ≠ first := fun id inside same => (List.nodup_cons.mp distinct).1 (same ▸ inside)
    have stillHeld : ∀ id ∈ rest, (lookup id (remove first state)).isSome = true := by
      intro id inside
      rw [lookup_remove, if_neg (apart id inside)]
      exact held id (List.mem_cons_of_mem _ inside)
    obtain ⟨later, ran, readable, states, updates⟩ := ih (List.nodup_cons.mp distinct).2 stillHeld
    obtain ⟨bot, isBot⟩ := isSome_iff_exists.mp (held first List.mem_cons_self)
    refine ⟨(unloadEntry space first bot ++ later.1, later.2), ?_, ?_, ?_, ?_⟩
    · rw [unloadBots, isBot, bind_some, ran]
      rfl
    · intro entry member
      rcases List.mem_append.mp member with own | others
      · exact (mem_unloadEntry own).2
      · exact readable entry others
    · intro id
      rw [states id, lookup_remove]
      by_cases isFirst : id = first <;> simp [isFirst]
    · intro id
      rw [lookup_append, updates id, lookup_remove]
      by_cases isFirst : id = first
      · subst isFirst
        have outside : id ∉ rest := (List.nodup_cons.mp distinct).1
        simp [isBot, outside]
      · simp [isFirst, lookup_unloadEntry isFirst]

theorem lookup_nulls (name : JsString) (tags : Fields) :
    lookup name (nulls tags) = (lookup name tags).map fun _ => .null := by
  induction tags with
  | nil => rfl
  | cons tag rest ih =>
    by_cases same : name = tag.1
    · simp [nulls, lookup, same]
    · simp only [nulls, List.map_cons, lookup, if_neg same]
      exact ih

theorem read_nulls {record : Option Bot} {tags : Fields} {field : Field}
    (named : Named { emptyBot with masks := some [(space, nulls tags)] } field) :
    read (some (applyBot record { emptyBot with masks := some [(space, nulls tags)] })) field = none := by
  cases field with
  | id => exact named.elim
  | space => exact named.elim
  | tag name => exact (named rfl).elim
  | signature hash => exact (named rfl).elim
  | mask other name =>
    by_cases same : other = space
    · have given : lookup name ((lookup other [(space, nulls tags)]).getD []) = some .null := by
        cases held : lookup name tags with
        | none => simp [Named, lookup, same, lookup_nulls, held] at named
        | some value => simp [lookup, same, lookup_nulls, held]
      exact (maskOf_applyBot _ _ _ _).trans (congrArg (setTag _) given)
    · simp [Named, lookup, same] at named

/-- The listener has nothing of a bot that the partition had and no other. -/
theorem read_unloaded {bot : Bot} {record : Option Bot} {field : Field}
    (same : ∀ field, read record field = read (some bot) field)
    (owned : hasId bot = true ∨ ∀ field, read (some bot) field ≠ none → ∃ name, field = .mask space name) :
    read (applyEntry record (lookup id (unloadEntry space id bot))) field = none := by
  by_cases isBot : hasId bot = true
  · rw [unloadEntry, if_pos isBot]
    simp only [lookup, if_true, applyEntry, read_none]
  · have masks : ∀ field, (∀ name, field ≠ .mask space name) → read record field = none := by
      intro field other
      rw [same field]
      by_contra value
      obtain ⟨name, isMask⟩ := (owned.resolve_left isBot) field value
      exact other name isMask
    rw [unloadEntry, if_neg isBot]
    cases tags : (lookup space (bot.masks.getD [])).getD [] with
    | nil =>
      change read record field = none
      by_cases isMask : ∃ name, field = .mask space name
      · obtain ⟨name, isMask⟩ := isMask
        rw [same field, isMask]
        exact congrArg (lookup name) tags
      · exact masks field fun name isName => isMask ⟨name, isName⟩
    | cons first rest =>
      have entry : lookup id [(id, some { emptyBot with masks := some [(space, nulls (first :: rest))] })] =
          some (some { emptyBot with masks := some [(space, nulls (first :: rest))] }) := if_pos rfl
      refine (congrArg (fun entry => read (applyEntry record entry) field) entry).trans ?_
      by_cases named : Named { emptyBot with masks := some [(space, nulls (first :: rest))] } field
      · exact read_nulls named
      · refine (read_unnamed named (.inl ⟨rfl, rfl⟩)).trans ?_
        by_cases isMask : ∃ name, field = .mask space name
        · obtain ⟨name, isMask⟩ := isMask
          subst isMask
          have missing : lookup name (first :: rest) = none := by
            simpa [Named, lookup, lookup_nulls] using named
          rw [same]
          exact (congrArg (lookup name) tags).trans missing
        · exact masks field fun name isName => isMask ⟨name, isName⟩

theorem union_unloaded {s' : Players} (union : Union s) (leaves : Leaves space s n child)
    (loaded : Loaded s n child) (loaded_iff : ∀ m other, Loaded s' m other ↔ m ≠ n ∧ Loaded s m other)
    (states : ∀ id, lookup id s'.state = if id ∈ idsOf child.state then none else lookup id s.state) :
    Union s' := by
  intro id field value
  rw [states id]
  by_cases inside : id ∈ idsOf child.state
  · rw [if_pos inside, read_none]
    refine iff_of_false (some_ne_none value).symm ?_
    rintro ⟨m, other, isLoaded, found⟩
    have before := (loaded_iff m other).mp isLoaded
    rw [(leaves id ((mem_idsOf id child.state).mp inside)).1 field m other before.1 before.2] at found
    cases found
  · have missing : lookup id child.state = none := by
      rwa [mem_idsOf, Option.not_isSome_iff_eq_none] at inside
    rw [if_neg inside, union id field value]
    constructor
    · rintro ⟨m, other, isLoaded, found⟩
      refine ⟨m, other, (loaded_iff m other).mpr ⟨fun same => ?_, isLoaded⟩, found⟩
      subst same
      have equal := isLoaded.2.symm.trans loaded.2
      cases equal
      rw [missing, read_none] at found
      cases found
    · rintro ⟨m, other, isLoaded, found⟩
      exact ⟨m, other, ((loaded_iff m other).mp isLoaded).2, found⟩

theorem follows_unloaded (follows : Follows s) (leaves : Leaves space s n child)
    (states : ∀ id, lookup id made.2 = if id ∈ idsOf child.state then none else lookup id s.state)
    (updates : ∀ id, lookup id made.1 = if id ∈ idsOf child.state then
      (lookup id s.state).bind fun bot => lookup id (unloadEntry space id bot) else none)
    (isListener : apply s.listener made.1 = some listener) (id : JsString) (field : Field) :
    read (lookup id listener) field = read (lookup id made.2) field := by
  rw [lookup_apply isListener id, states id, updates id]
  by_cases inside : id ∈ idsOf child.state
  · obtain ⟨_, bot, isBot, owned⟩ := leaves id ((mem_idsOf id child.state).mp inside)
    have same : ∀ field, read (lookup id s.listener) field = read (some bot) field :=
      fun field => (follows id field).trans (congrArg (read · field) isBot)
    rw [if_pos inside, if_pos inside, read_none, isBot, bind_some]
    exact read_unloaded same owned
  · rw [if_neg inside, if_neg inside]
    exact follows id field

end Unloading

/-! ### Every run -/

/-- A partition is being loaded, or is loaded and subscribed to, or is gone and named by no map. -/
inductive Stage (s : Players) (n : Nat) (child : Child) : Prop where
  | loading (ready : child.ready = false) (subscribed : child.subscribed = false) (state : child.state = [])
      (promised : lookup child.session s.promises = some n) (absent : lookup child.session s.partitions = none)
  | loaded (ready : child.ready = true) (subscribed : child.subscribed = true)
      (promised : lookup child.session s.promises = some n) (placed : lookup child.session s.partitions = some n)
      (subscription : lookup child.session s.subs = some n)
  | gone (ready : child.ready = true) (subscribed : child.subscribed = false)
      (unpromised : lookup child.session s.promises ≠ some n)

structure Inv (s : Players) : Prop where
  counted : ∀ session count, lookup session s.devices = some count → 0 < count
  promised : ∀ session, (lookup session s.promises).isSome = true ↔
    (lookup session s.devices).isSome = true ∨ ∃ n, (session, n) ∈ s.unloads
  pending : ∀ session n, (session, n) ∈ s.unloads →
    lookup session s.devices = none ∧ lookup session s.promises = some n
  once : (s.unloads.map Prod.fst).Nodup
  created : ∀ session n, lookup session s.promises = some n →
    ∃ child, s.children[n]? = some child ∧ child.session = session
  placed : ∀ session n, lookup session s.partitions = some n → lookup session s.promises = some n
  stage : ∀ n child, s.children[n]? = some child → Stage s n child
  union : Union s
  follows : Follows s

section Runs

variable {user space : JsString} {s : Players} {label : Label} {n : Nat} {child : Child}

theorem Stage.congr {s' : Players} (stage : Stage s n child)
    (promises : lookup child.session s'.promises = lookup child.session s.promises)
    (partitions : lookup child.session s'.partitions = lookup child.session s.partitions)
    (subs : lookup child.session s'.subs = lookup child.session s.subs) : Stage s' n child := by
  cases stage with
  | loading ready subscribed state promised absent =>
    exact .loading ready subscribed state (promises.trans promised) (partitions.trans absent)
  | loaded ready subscribed promised placed subscription =>
    exact .loaded ready subscribed (promises.trans promised) (partitions.trans placed) (subs.trans subscription)
  | gone ready subscribed unpromised =>
    exact .gone ready subscribed (promises ▸ unpromised)

theorem loaded_of_subscribed (inv : Inv s) (inside : s.children[n]? = some child)
    (subscribed : child.subscribed = true) : Loaded s n child := by
  cases inv.stage n child inside with
  | loading _ unsubscribed _ _ _ => cases subscribed.symm.trans unsubscribed
  | loaded _ _ _ placed _ => exact ⟨placed, inside⟩
  | gone _ unsubscribed _ => cases subscribed.symm.trans unsubscribed

theorem subscribed_of_loaded (inv : Inv s) (loaded : Loaded s n child) :
    child.ready = true ∧ child.subscribed = true ∧ lookup child.session s.subs = some n := by
  cases inv.stage n child loaded.2 with
  | loading _ _ _ _ absent => cases absent.symm.trans loaded.1
  | loaded ready subscribed _ _ subscription => exact ⟨ready, subscribed, subscription⟩
  | gone _ _ unpromised => exact absurd (inv.placed _ _ loaded.1) unpromised

theorem inv_start : Inv start where
  counted session count counted := by cases counted
  promised session := by simp [start, lookup]
  pending session n pending := by cases pending
  once := List.nodup_nil
  created session n promised := by cases promised
  placed session n placed := by cases placed
  stage n child inside := by cases inside
  union id field value := by
    refine iff_of_false (fun found => ?_) ?_
    · rw [start, lookup, read_none] at found
      cases found
    · rintro ⟨n, child, loaded, _⟩
      cases loaded.2
  follows id field := rfl

/-- A partition without bots is loaded, or none. -/
theorem union_congr {s' : Players} (union : Union s) (state : s'.state = s.state)
    (kept : ∀ m other, Loaded s m other → Loaded s' m other)
    (added : ∀ m other, Loaded s' m other → Loaded s m other ∨ other.state = []) : Union s' := by
  intro id field value
  rw [state, union id field value]
  constructor
  · rintro ⟨m, other, loaded, found⟩
    exact ⟨m, other, kept m other loaded, found⟩
  · rintro ⟨m, other, loaded, found⟩
    rcases added m other loaded with before | empty
    · exact ⟨m, other, before, found⟩
    · rw [empty, lookup, read_none] at found
      cases found

theorem lookup_registerDevice (devices : List (JsString × Nat)) (session other : JsString) :
    lookup other (registerDevice devices session) =
      if other = session then some ((lookup session devices).getD 0 + 1) else lookup other devices := by
  rw [registerDevice]
  cases lookup session devices with
  | none => exact lookup_assign session other 1 devices
  | some count => exact lookup_assign session other (count + 1) devices

variable {session : JsString}

theorem lookup_unregisterDevice (devices : List (JsString × Nat))
    (last : lookup session devices = some 1) (other : JsString) :
    lookup other (unregisterDevice devices session) = if other = session then none else lookup other devices := by
  rw [unregisterDevice, last]
  exact lookup_remove session other devices

/-- A session without pending unload connects once more, or its partition is on its way. -/
theorem inv_registered (inv : Inv s) (free : ∀ n, (session, n) ∉ s.unloads)
    (promised : (lookup session s.promises).isSome = true) :
    Inv { s with devices := registerDevice s.devices session } where
  counted other count counted := by
    rw [lookup_registerDevice] at counted
    split at counted
    · cases counted
      exact Nat.succ_pos _
    · exact inv.counted other count counted
  promised other := by
    rw [lookup_registerDevice]
    by_cases same : other = session
    · subst same
      simp [promised]
    · rw [if_neg same]
      exact inv.promised other
  pending other n pending := by
    have apart : other ≠ session := fun same => free n (same ▸ pending)
    rw [lookup_registerDevice, if_neg apart]
    exact inv.pending other n pending
  once := inv.once
  created := inv.created
  placed := inv.placed
  stage n child inside := (inv.stage n child inside).congr rfl rfl rfl
  union := inv.union
  follows := inv.follows

theorem getElem?_created {children : List Child} {new child : Child} :
    (children ++ [new])[n]? = some child ↔ children[n]? = some child ∨ n = children.length ∧ child = new := by
  rw [List.getElem?_append]
  by_cases old : n < children.length
  · have apart : n ≠ children.length := Nat.ne_of_lt old
    simp [old, apart]
  · by_cases last : n = children.length
    · simp [last, eq_comm]
    · have beyond : [new][n - children.length]? = none := List.getElem?_eq_none (by simp; omega)
      simp [old, last, beyond]

theorem inv_connected (inv : Inv s) (free : ∀ n, (session, n) ∉ s.unloads) :
    Inv (tryLoad { s with devices := registerDevice s.devices session } session) := by
  rw [tryLoad]
  split
  · next promised => exact inv_registered inv free promised
  · next promised =>
      have none : lookup session s.promises = none := Option.not_isSome_iff_eq_none.mp promised
      have fresh : ∀ other, lookup other s.promises ≠ some s.children.length := by
        intro other known
        obtain ⟨child, inside, _⟩ := inv.created other _ known
        exact absurd (List.getElem?_eq_some_iff.mp inside).1 (lt_irrefl _)
      constructor
      · intro other count counted
        rw [lookup_registerDevice] at counted
        split at counted
        · cases counted
          exact Nat.succ_pos _
        · exact inv.counted other count counted
      · intro other
        rw [lookup_registerDevice, lookup_assign]
        by_cases same : other = session
        · simp [same]
        · rw [if_neg same, if_neg same]
          exact inv.promised other
      · intro other n pending
        have apart : other ≠ session := fun same => free n (same ▸ pending)
        rw [lookup_registerDevice, lookup_assign, if_neg apart, if_neg apart]
        exact inv.pending other n pending
      · exact inv.once
      · intro other n known
        rw [lookup_assign] at known
        split at known
        · next same =>
            cases known
            exact ⟨_, getElem?_created.mpr (.inr ⟨rfl, rfl⟩), same.symm⟩
        · obtain ⟨child, inside, isSession⟩ := inv.created other n known
          exact ⟨child, getElem?_created.mpr (.inl inside), isSession⟩
      · intro other n placed
        rw [lookup_assign]
        split
        · next same =>
            have known := inv.placed other n placed
            rw [same, none] at known
            cases known
        · exact inv.placed other n placed
      · intro n child inside
        rcases getElem?_created.mp inside with old | ⟨isLast, isNew⟩
        · by_cases same : child.session = session
          · cases inv.stage n child old with
            | loading _ _ _ promised _ => cases (same ▸ promised).symm.trans none
            | loaded _ _ promised _ _ => cases (same ▸ promised).symm.trans none
            | gone ready subscribed _ =>
              refine .gone ready subscribed ?_
              rw [lookup_assign, if_pos same]
              intro isLast
              cases isLast
              exact absurd (List.getElem?_eq_some_iff.mp old).1 (lt_irrefl _)
          · exact (inv.stage n child old).congr ((lookup_assign _ _ _ _).trans (if_neg same)) rfl rfl
        · subst isLast isNew
          refine .loading rfl rfl rfl ((lookup_assign _ _ _ _).trans (if_pos rfl)) ?_
          cases placed : lookup session s.partitions with
          | none => rfl
          | some n => cases none.symm.trans (inv.placed session n placed)
      · refine union_congr inv.union rfl (fun m other loaded => ?_) (fun m other loaded => ?_)
        · exact ⟨loaded.1, getElem?_created.mpr (.inl loaded.2)⟩
        · rcases getElem?_created.mp loaded.2 with old | ⟨_, isNew⟩
          · exact .inl ⟨loaded.1, old⟩
          · exact .inr (congrArg Child.state isNew)
      · exact inv.follows

theorem inv_disconnected (inv : Inv s) (last : lookup session s.devices = some 1) :
    Inv (tryUnload { s with devices := unregisterDevice s.devices session } session) := by
  have connected : (lookup session s.devices).isSome = true := last ▸ rfl
  obtain ⟨n, known⟩ := isSome_iff_exists.mp ((inv.promised session).mpr (.inl connected))
  have free : ∀ m, (session, m) ∉ s.unloads := fun m pending => by
    cases last.symm.trans (inv.pending session m pending).1
  rw [tryUnload, known]
  constructor
  · intro other count counted
    rw [lookup_unregisterDevice _ last] at counted
    split at counted
    · cases counted
    · exact inv.counted other count counted
  · intro other
    rw [lookup_unregisterDevice _ last]
    by_cases same : other = session
    · subst same
      simp [known]
    · rw [if_neg same, inv.promised other]
      simp [same]
  · intro other m pending
    rw [lookup_unregisterDevice _ last]
    rcases List.mem_append.mp pending with earlier | new
    · have apart : other ≠ session := fun same => free m (same ▸ earlier)
      rw [if_neg apart]
      exact inv.pending other m earlier
    · cases mem_singleton.mp new
      exact ⟨if_pos rfl, known⟩
  · rw [List.map_append, List.nodup_append]
    refine ⟨inv.once, List.nodup_singleton _, fun other earlier new isNew => ?_⟩
    obtain ⟨entry, pending, same⟩ := mem_map.mp earlier
    cases mem_singleton.mp isNew
    rintro rfl
    exact free entry.2 (same ▸ pending)
  · exact inv.created
  · exact inv.placed
  · exact fun m child inside => (inv.stage m child inside).congr rfl rfl rfl
  · exact inv.union
  · exact inv.follows

theorem disconnected_unknown (inv : Inv s) (absent : lookup session s.devices = none)
    (free : ∀ n, (session, n) ∉ s.unloads) :
    tryUnload { s with devices := unregisterDevice s.devices session } session = s := by
  have unpromised : lookup session s.promises = none := by
    rw [← Option.not_isSome_iff_eq_none, inv.promised session, absent]
    rintro (impossible | ⟨n, pending⟩)
    · cases impossible
    · exact free n pending
  rw [unregisterDevice, absent, tryUnload, unpromised]

theorem inv_loaded (inv : Inv s) (inside : s.children[n]? = some child)
    (ready : child.ready = false) : Inv (load s n child) := by
  have session : ∀ m other, lookup other s.promises = some m → m = n → other = child.session := by
    intro m other known same
    subst same
    obtain ⟨found, isFound, isSession⟩ := inv.created other m known
    cases isFound.symm.trans inside
    exact isSession.symm
  cases inv.stage n child inside with
  | loaded isReady _ _ _ _ => cases ready.symm.trans isReady
  | gone isReady _ _ => cases ready.symm.trans isReady
  | loading _ _ empty promised absent =>
    constructor
    · exact inv.counted
    · exact inv.promised
    · exact inv.pending
    · exact inv.once
    · intro other m known
      obtain ⟨found, isFound, isSession⟩ := inv.created other m known
      by_cases same : m = n
      · exact ⟨_, (getElem?_replaced inside).mpr (.inl ⟨same, rfl⟩), (session m other known same).symm⟩
      · exact ⟨found, (getElem?_replaced inside).mpr (.inr ⟨same, isFound⟩), isSession⟩
    · intro other m placed
      rw [load, lookup_assign] at placed
      split at placed
      · next same =>
          cases placed
          exact same ▸ promised
      · exact inv.placed other m placed
    · intro m other isOther
      rcases (getElem?_replaced inside).mp isOther with ⟨same, isNew⟩ | ⟨apart, old⟩
      · subst same isNew
        exact .loaded rfl rfl promised ((lookup_assign _ _ _ _).trans (if_pos rfl))
          ((lookup_assign _ _ _ _).trans (if_pos rfl))
      · by_cases same : other.session = child.session
        · cases inv.stage m other old with
          | loading _ _ _ known _ => exact absurd (some.inj ((same ▸ known).symm.trans promised)) apart
          | loaded _ _ known _ _ => exact absurd (some.inj ((same ▸ known).symm.trans promised)) apart
          | gone isReady unsubscribed unpromised => exact .gone isReady unsubscribed unpromised
        · exact (inv.stage m other old).congr rfl ((lookup_assign _ _ _ _).trans (if_neg same))
            ((lookup_assign _ _ _ _).trans (if_neg same))
    · refine union_congr inv.union rfl (fun m other loaded => ?_) (fun m other loaded => ?_)
      · have apart : m ≠ n := by
          rintro rfl
          cases loaded.2.symm.trans inside
          cases absent.symm.trans loaded.1
        have other_session : other.session ≠ child.session := fun same => by
          cases absent.symm.trans (same ▸ loaded.1)
        exact ⟨(lookup_assign _ _ _ _).trans ((if_neg other_session).trans loaded.1),
          (getElem?_replaced inside).mpr (.inr ⟨apart, loaded.2⟩)⟩
      · rcases (getElem?_replaced inside).mp loaded.2 with ⟨_, isNew⟩ | ⟨apart, old⟩
        · exact .inr ((congrArg Child.state isNew).trans empty)
        · have placed := loaded.1
          rw [load, lookup_assign] at placed
          split at placed
          · exact absurd (some.inj placed).symm apart
          · exact .inl ⟨placed, old⟩
    · exact inv.follows

theorem mem_eraseIdx_keys {entries : List (JsString × Nat)} {index : Nat} {entry : JsString × Nat}
    (distinct : (entries.map Prod.fst).Nodup) (found : entries[index]? = some entry) (other : JsString × Nat) :
    other ∈ entries.eraseIdx index ↔ other ∈ entries ∧ other.1 ≠ entry.1 := by
  rw [List.mem_eraseIdx_iff_getElem?]
  constructor
  · rintro ⟨place, apart, isOther⟩
    refine ⟨List.mem_of_getElem? isOther, fun same => apart ?_⟩
    have bound : place < (entries.map Prod.fst).length := by
      rw [List.length_map]
      exact (List.getElem?_eq_some_iff.mp isOther).1
    refine (List.getElem?_inj bound distinct).mp ?_
    rw [List.getElem?_map, List.getElem?_map, isOther, found]
    exact congrArg some same
  · rintro ⟨member, apart⟩
    obtain ⟨place, isOther⟩ := List.mem_iff_getElem?.mp member
    refine ⟨place, ?_, isOther⟩
    rintro rfl
    cases isOther.symm.trans found
    exact apart rfl

theorem modify_eq_set {children : List Child} (inside : children[n]? = some child)
    (f : Child → Child) : children.modify n f = children.set n (f child) := by
  rw [List.modify_eq_set_getElem?, inside]
  rfl

theorem inv_unloaded (inv : Inv s) {index : Nat} {pending : JsString × Nat}
    (isPending : s.unloads[index]? = some pending) (inside : s.children[pending.2]? = some child)
    (ready : child.ready = true) (leaves : Leaves space s pending.2 child) :
    ∃ next, unloadChild space { s with unloads := s.unloads.eraseIdx index } pending.1 child = some next ∧
      Inv next := by
  obtain ⟨session, n⟩ := pending
  obtain ⟨absent, promised⟩ := inv.pending session n (List.mem_of_getElem? isPending)
  have isSession : child.session = session := by
    obtain ⟨found, isFound, ofSession⟩ := inv.created session n promised
    cases isFound.symm.trans inside
    exact ofSession
  subst isSession
  have loaded : Loaded s n child := by
    cases inv.stage n child inside with
    | loading unready _ _ _ _ => cases ready.symm.trans unready
    | loaded _ _ _ placed _ => exact ⟨placed, inside⟩
    | gone _ _ unpromised => exact absurd promised unpromised
  obtain ⟨_, _, subscription⟩ := subscribed_of_loaded inv loaded
  have held : ∀ id ∈ idsOf child.state, (lookup id s.state).isSome = true := by
    intro id member
    obtain ⟨_, bot, isBot, _⟩ := leaves id ((mem_idsOf id child.state).mp member)
    exact isBot ▸ rfl
  obtain ⟨made, ran, readable, states, updates⟩ :=
    @unloadBots_spec space (idsOf child.state) (List.nodup_dedup _) s.state held
  obtain ⟨listener, isListener⟩ := apply_isSome readable s.listener
  have pendings := mem_eraseIdx_keys inv.once isPending
  have isNext : unloadChild space { s with unloads := s.unloads.eraseIdx index } child.session child = some { s with
      unloads := s.unloads.eraseIdx index
      children := s.children.set n { child with subscribed := false }
      promises := remove child.session s.promises
      partitions := remove child.session s.partitions
      subs := remove child.session s.subs
      state := made.2
      listener := listener } := by
    have unsubscribed : unsubscribe s.children (lookup child.session s.subs) =
        s.children.set n { child with subscribed := false } := by
      rw [subscription, unsubscribe, modify_eq_set inside]
    rw [unloadChild, ran, bind_some, isListener, unsubscribed]
    rfl
  refine ⟨_, isNext, ?_⟩
  have child_iff : ∀ m other, (s.children.set n { child with subscribed := false })[m]? = some other ↔
      m = n ∧ other = { child with subscribed := false } ∨ m ≠ n ∧ s.children[m]? = some other :=
    fun m other => getElem?_replaced inside
  constructor
  · exact inv.counted
  · intro other
    rw [lookup_remove]
    by_cases same : other = child.session
    · subst same
      simp [absent, pendings]
    · rw [if_neg same, inv.promised other]
      simp [pendings, same]
  · intro other m isOther
    obtain ⟨member, apart⟩ := (pendings _).mp isOther
    rw [lookup_remove, if_neg apart]
    exact inv.pending other m member
  · rw [← List.eraseIdx_map]
    exact inv.once.eraseIdx index
  · intro other m known
    rw [lookup_remove] at known
    split at known
    · cases known
    · next apart =>
        obtain ⟨found, isFound, ofSession⟩ := inv.created other m known
        refine ⟨found, (child_iff m found).mpr (.inr ⟨?_, isFound⟩), ofSession⟩
        rintro rfl
        cases isFound.symm.trans inside
        exact apart ofSession.symm
  · intro other m placed
    rw [lookup_remove] at placed ⊢
    split at placed
    · cases placed
    · next apart =>
        rw [if_neg apart]
        exact inv.placed other m placed
  · intro m other isOther
    rcases (child_iff m other).mp isOther with ⟨same, isNew⟩ | ⟨apart, old⟩
    · subst same isNew
      refine .gone ready rfl ?_
      rw [lookup_remove, if_pos rfl]
      exact (some_ne_none _).symm
    · by_cases same : other.session = child.session
      · cases inv.stage m other old with
        | loading _ _ _ known _ => exact absurd (some.inj ((same ▸ known).symm.trans promised)) apart
        | loaded _ _ known _ _ => exact absurd (some.inj ((same ▸ known).symm.trans promised)) apart
        | gone isReady unsubscribed _ =>
          refine .gone isReady unsubscribed ?_
          rw [lookup_remove, if_pos same]
          exact (some_ne_none _).symm
      · exact (inv.stage m other old).congr ((lookup_remove _ _ _).trans (if_neg same))
          ((lookup_remove _ _ _).trans (if_neg same)) ((lookup_remove _ _ _).trans (if_neg same))
  · refine union_unloaded inv.union leaves loaded (fun m other => ?_) states
    unfold Loaded
    rw [lookup_remove, child_iff m other]
    constructor
    · rintro ⟨placed, ⟨_, isNew⟩ | ⟨apart, old⟩⟩
      · rw [isNew, if_pos rfl] at placed
        cases placed
      · split at placed
        · cases placed
        · exact ⟨apart, placed, old⟩
    · rintro ⟨apart, placed, old⟩
      have other_session : other.session ≠ child.session := fun same =>
        apart (some.inj ((same ▸ placed).symm.trans loaded.1))
      rw [if_neg other_session]
      exact ⟨placed, .inr ⟨apart, old⟩⟩
  · exact follows_unloaded inv.follows leaves states updates isListener

theorem inv_updated (inv : Inv s) {update : PartialBotsState}
    (inside : s.children[n]? = some child) (subscribed : child.subscribed = true)
    (fits : Fits s n child update) : ∃ next, updateChild s n child update = some next ∧ Inv next := by
  have loaded := loaded_of_subscribed inv inside subscribed
  obtain ⟨own, isOwn⟩ := apply_isSome fits.1 child.state
  obtain ⟨state, isState⟩ := apply_isSome fits.1 s.state
  obtain ⟨listener, isListener⟩ := apply_isSome fits.1 s.listener
  refine ⟨updated s n child own state listener, ?_, ?_⟩
  · rw [updateChild, isOwn, bind_some, isState, bind_some, isListener]
    rfl
  constructor
  · exact inv.counted
  · exact inv.promised
  · exact inv.pending
  · exact inv.once
  · intro other m known
    obtain ⟨found, isFound, ofSession⟩ := inv.created other m known
    by_cases same : m = n
    · subst same
      cases isFound.symm.trans inside
      exact ⟨_, (getElem?_replaced inside).mpr (.inl ⟨rfl, rfl⟩), ofSession⟩
    · exact ⟨found, (getElem?_replaced inside).mpr (.inr ⟨same, isFound⟩), ofSession⟩
  · exact inv.placed
  · intro m other isOther
    rcases (getElem?_replaced inside).mp isOther with ⟨same, isNew⟩ | ⟨_, old⟩
    · subst same isNew
      obtain ⟨ready, _, subscription⟩ := subscribed_of_loaded inv loaded
      exact .loaded ready subscribed (inv.placed _ _ loaded.1) loaded.1 subscription
    · exact (inv.stage m other old).congr rfl rfl rfl
  · exact union_update inv.union loaded fits isOwn isState
  · exact follows_update inv.follows fits isState isListener

/-- Every step that is there to be made is made, and leaves all as it was. -/
theorem step_kept (inv : Inv s) (possible : Possible s label) (allowed : Allowed user space s label) :
    ∃ next, step user space s label = some next ∧ Inv next := by
  cases label with
  | connected session =>
    rw [step]
    by_cases own : session = user
    · exact ⟨s, if_pos own, inv⟩
    · exact ⟨_, if_neg own, inv_connected inv (allowed.resolve_left own)⟩
  | disconnected session =>
    rw [step]
    by_cases own : session = user
    · exact ⟨s, if_pos own, inv⟩
    · refine ⟨_, if_neg own, ?_⟩
      rcases allowed.resolve_left own with last | ⟨absent, free⟩
      · exact inv_disconnected inv last
      · rw [disconnected_unknown inv absent free]
        exact inv
  | loaded n =>
    obtain ⟨child, inside, ready⟩ := possible
    refine ⟨load s n child, ?_, inv_loaded inv inside ready⟩
    rw [step, inside, bind_some, ready]
    rfl
  | unload index =>
    obtain ⟨pending, child, isPending, inside, ready⟩ := possible
    rw [step, isPending, bind_some, inside, bind_some, if_pos ready]
    exact inv_unloaded inv isPending inside ready (allowed pending child isPending inside ready)
  | update n update =>
    obtain ⟨child, inside, subscribed⟩ := possible
    rw [step, inside, bind_some, if_pos subscribed]
    exact inv_updated inv inside subscribed (allowed child inside subscribed)

theorem possible_of_step {next : Players} (ran : step user space s label = some next) : Possible s label := by
  cases label with
  | connected session => trivial
  | disconnected session => trivial
  | loaded n =>
    obtain ⟨child, inside, ran⟩ := bind_eq_some_iff.mp ran
    split at ran
    · cases ran
    · next unready => exact ⟨child, inside, Bool.eq_false_iff.mpr unready⟩
  | unload index =>
    obtain ⟨pending, isPending, ran⟩ := bind_eq_some_iff.mp ran
    obtain ⟨child, inside, ran⟩ := bind_eq_some_iff.mp ran
    split at ran
    · next ready => exact ⟨pending, child, isPending, inside, ready⟩
    · cases ran
  | update n update =>
    obtain ⟨child, inside, ran⟩ := bind_eq_some_iff.mp ran
    split at ran
    · next subscribed => exact ⟨child, inside, subscribed⟩
    · cases ran

theorem inv_reached (reached : Reaches (step user space) (Allowed user space) start s) : Inv s := by
  refine reached.invariant Inv inv_start fun state label next inv allowed ran => ?_
  obtain ⟨made, isMade, kept⟩ := step_kept inv (possible_of_step ran) allowed
  cases isMade.symm.trans ran
  exact kept

theorem settled_partitions (inv : Inv s) (settled : Settled s) (session : JsString) :
    (lookup session s.partitions).isSome = true ↔ ∃ count, lookup session s.devices = some count ∧ 0 < count := by
  have connected : (lookup session s.promises).isSome = true ↔ (lookup session s.devices).isSome = true := by
    rw [inv.promised session, settled.2]
    simp
  constructor
  · intro placed
    obtain ⟨n, isPlaced⟩ := isSome_iff_exists.mp placed
    have known : (lookup session s.promises).isSome = true := inv.placed session n isPlaced ▸ rfl
    obtain ⟨count, counted⟩ := isSome_iff_exists.mp (connected.mp known)
    exact ⟨count, counted, inv.counted session count counted⟩
  · rintro ⟨count, counted, _⟩
    obtain ⟨n, known⟩ := isSome_iff_exists.mp (connected.mpr (counted ▸ rfl))
    obtain ⟨child, inside, isSession⟩ := inv.created session n known
    have ready := settled.1 child (List.mem_of_getElem? inside)
    subst isSession
    cases inv.stage n child inside with
    | loading unready _ _ _ _ => cases ready.symm.trans unready
    | loaded _ _ _ placed _ => exact placed ▸ rfl
    | gone _ _ unpromised => exact absurd known unpromised

end Runs

section Visits

def mine : JsString := [109]

def first : JsString := [97]

def second : JsString := [98]

def tempLocal : JsString := [116]

def visitor : Bot :=
  { id := some first, space := some tempLocal, tags := some [([120], .string [49])], signatures := none, masks := none }

theorem fits_added {s : Players} {n : Nat} {child : Child} {id : JsString} {bot : Bot}
    (readable : ReadableUpdate [(id, some bot)])
    (alone : ∀ other child, other ≠ n → Loaded s other child → child.state = [])
    (records : SameRecords s child id) : Fits s n child [(id, some bot)] := by
  have others : ∀ other field, Others s n other field := by
    intro other field m child apart loaded
    rw [alone m child apart loaded, lookup, read_none]
  refine ⟨readable, fun other => ⟨fun _ field => others other field, fun part isPart => ?_⟩⟩
  refine ⟨fun field _ => others other field, .inr ?_⟩
  by_cases same : other = id
  · exact same ▸ records
  · simp [lookup, same] at isPart

theorem leaves_empty {space : JsString} {s : Players} {n : Nat} {child : Child} (empty : child.state = []) :
    Leaves space s n child := by
  intro id known
  rw [empty] at known
  cases known

end Visits

end CasualOS.OtherPlayers

import CasualOS.CausalRepo
import CasualOS.HashText

/-! Branches of one store under the operations of a repository that works on one of them. -/

namespace CasualOS.BranchIsolation

open CausalRepo

variable {T : Type}

/-- What a repository is asked to do on the branch of one name. -/
inductive Op (T : Type) where
  | checkout (createIfDoesntExist : Option (Option JsString)) (now : Int)
  | createBranch (hash : Option JsString) (now : Int)
  | addMany (atoms : List (Atom T))
  | removeMany (hashes : List JsString)
  | commit (message : JsString) (time now : Int)

/-- The operation, with an answer of no interest where the source returns one. -/
def call (hashes : Hashes T) (name : JsString) (repo : CausalRepo T) (store : MemoryCausalRepoStore T) :
    Op T → Called T Unit
  | .checkout create now => repo.checkout store name create now
  | .createBranch hash now => repo.createBranch store name hash now
  | .addMany atoms => { repo := (repo.addMany atoms).1, store := store, result := .ok () }
  | .removeMany removed => { repo := (repo.removeMany removed).1, store := store, result := .ok () }
  | .commit message time now =>
    let called := repo.commit store hashes message time now
    { repo := called.repo, store := called.store, result := called.result.map (fun _ => ()) }

def names (store : MemoryCausalRepoStore T) : List JsString := store.branches.map CausalRepoBranch.name

/-- What the hash of a branch leads to can be loaded. -/
def Loads (store : MemoryCausalRepoStore T) (branch : CausalRepoBranch) : Prop :=
  (loadBranch store branch).isOk = true

/-- When an operation that opens the branch should succeed. -/
def ShouldOpen (store : MemoryCausalRepoStore T) (name : JsString) : Op T → Prop
  | .checkout create now =>
    (∃ b ∈ store.branches, b.name = name ∧ Loads store b) ∨
      name ∉ names store ∧ ∃ hash, create = some hash ∧
        Loads store { name := name, hash := hash.filter (· ≠ []), time := now }
  | .createBranch hash now =>
    name ∉ names store ∧ Loads store { name := name, hash := hash.filter (· ≠ []), time := now }
  | _ => True

def Opens : Op T → Prop
  | .checkout _ _ => True
  | .createBranch _ _ => True
  | _ => False

def others (name : JsString) (store : MemoryCausalRepoStore T) : List CausalRepoBranch :=
  store.branches.filter (fun b => b.name ≠ name)

/-- One call: it opens the branch exactly when it should, the head has the name, and no other branch
changes. -/
structure Proper (name : JsString) (store : MemoryCausalRepoStore T) (op : Op T) (called : Called T Unit) :
    Prop where
  opened : Opens op → (called.result.isOk = true ↔ ShouldOpen store name op)
  found : Opens op → called.result.isOk = true → called.repo.head ≠ none
  head : ∀ head, called.repo.head = some head → head.name = name
  apart : others name called.store = others name store

/-- Every call of a sequence is proper. -/
def Isolated (hashes : Hashes T) (name : JsString) :
    CausalRepo T → MemoryCausalRepoStore T → List (Op T) → Prop
  | _, _, [] => True
  | repo, store, op :: rest =>
    let called := call hashes name repo store op
    Proper name store op called ∧ Isolated hashes name called.repo called.store rest

/-- The name is a branch, or no branch begins with it. -/
def Clear (store : MemoryCausalRepoStore T) (name : JsString) : Prop :=
  name ∈ names store ∨ ∀ b ∈ store.branches, ¬ name <+: b.name

/-! ### Looking a branch up -/

theorem lt_of_begins (name longer : JsString) (begins : name <+: longer) (other : longer ≠ name) : name < longer := by
  rcases begins with ⟨tail, rfl⟩
  induction name with
  | nil =>
    cases tail with
    | nil => exact absurd rfl other
    | cons u tail => exact List.Lex.nil
  | cons u name ih => exact List.Lex.cons (ih (fun same => other (by rw [List.cons_append, same])))

theorem mem_getBranches (store : MemoryCausalRepoStore T) (name : JsString) (b : CausalRepoBranch) :
    b ∈ store.getBranches name ↔ b ∈ store.branches ∧ name <+: b.name := by
  simp [MemoryCausalRepoStore.getBranches, List.mem_insertionSort]

theorem getBranches_nil (store : MemoryCausalRepoStore T) (name : JsString) :
    store.getBranches name = [] ↔ ∀ b ∈ store.branches, ¬ name <+: b.name := by
  rw [List.eq_nil_iff_forall_not_mem]
  simp only [mem_getBranches, not_and]

theorem getBranches_first (store : MemoryCausalRepoStore T) (name : JsString) (present : name ∈ names store) :
    ∃ b rest, store.getBranches name = b :: rest ∧ b ∈ store.branches ∧ b.name = name := by
  rcases List.mem_map.mp present with ⟨own, inStore, rfl⟩
  have member : own ∈ store.getBranches own.name := (mem_getBranches store _ own).mpr ⟨inStore, List.prefix_rfl⟩
  have total : Std.Total (fun a b : CausalRepoBranch => ¬ b.name < a.name) :=
    ⟨fun a b => (le_total a.name b.name).imp not_lt.mpr not_lt.mpr⟩
  have trans : IsTrans CausalRepoBranch (fun a b => ¬ b.name < a.name) :=
    ⟨fun a b c first second => not_lt.mpr ((not_lt.mp first).trans (not_lt.mp second))⟩
  have sorted : (store.getBranches own.name).Pairwise (fun a b => ¬ b.name < a.name) :=
    List.pairwise_insertionSort _ _
  cases found : store.getBranches own.name with
  | nil => rw [found] at member; cases member
  | cons b rest =>
    rw [found] at member sorted
    have listed : b ∈ store.branches ∧ own.name <+: b.name :=
      (mem_getBranches store _ b).mp (found ▸ List.mem_cons_self)
    refine ⟨b, rest, rfl, listed.1, ?_⟩
    by_contra other
    have before := lt_of_begins own.name b.name listed.2 other
    rcases List.mem_cons.mp member with first | later
    · exact other (congrArg CausalRepoBranch.name first.symm)
    · exact (List.pairwise_cons.mp sorted).1 own later before

theorem same_branch (store : MemoryCausalRepoStore T) (b c : CausalRepoBranch) (left : b ∈ store.branches)
    (right : c ∈ store.branches) (same : b.name = c.name) : b = c :=
  List.inj_on_of_nodup_map store.named left right same

/-! ### What one call does -/

theorem moveHead_spec (repo : CausalRepo T) (store : MemoryCausalRepoStore T) (branch : CausalRepoBranch) (now : Int) :
    ((repo.moveHead store branch now).result.isOk = true ↔ Loads store branch) ∧
      (repo.moveHead store branch now).repo.head = some branch ∧
      (repo.moveHead store branch now).store.branches = putBranch branch store.branches := by
  have same : loadBranch (store.saveBranch branch now) branch = loadBranch store branch := rfl
  simp only [moveHead, checkoutHead, same, Loads]
  cases loadBranch store branch with
  | error e => simp [MemoryCausalRepoStore.saveBranch, Except.isOk, Except.toBool]
  | ok data => simp [MemoryCausalRepoStore.saveBranch, setCurrentCommit, Except.isOk, Except.toBool]

theorem addMany_head (repo : CausalRepo T) (atoms : List (Atom T)) : (repo.addMany atoms).1.head = repo.head := by
  induction atoms generalizing repo with
  | nil => rfl
  | cons atom rest ih =>
    have tail := ih (repo.addOne atom)
    have first : (repo.addOne atom).head = repo.head := by
      unfold addOne
      split <;> rfl
    simp only [addMany, tail, first]

theorem removeMany_head (repo : CausalRepo T) (removed : List JsString) :
    (repo.removeMany removed).1.head = repo.head := by
  induction removed generalizing repo with
  | nil => rfl
  | cons hash rest ih =>
    have tail := ih (repo.removeOne hash)
    have first : (repo.removeOne hash).head = repo.head := by
      unfold removeOne
      split <;> rfl
    simp only [removeMany, tail, first]

theorem commit_spec (repo : CausalRepo T) (store : MemoryCausalRepoStore T) (hashes : Hashes T)
    (message : JsString) (time now : Int) :
    ((repo.commit store hashes message time now).repo.head = repo.head ∧
      (repo.commit store hashes message time now).store.branches = store.branches) ∨
    ∃ head moved, repo.head = some head ∧ moved.name = head.name ∧
      (repo.commit store hashes message time now).repo.head = some moved ∧
      (repo.commit store hashes message time now).store.branches = putBranch moved store.branches := by
  cases changes : repo.hasChanges with
  | false => simp [CausalRepo.commit, changes]
  | true =>
    cases found : repo.head with
    | none => simp [CausalRepo.commit, changes, found]
    | some head =>
      right
      let idx := AtomIndex.createIndex hashes.ofList repo.getAtoms
      let c := newCommit hashes message time idx (repo.currentCommit.bind CommitData.commit)
      let moved : CausalRepoBranch := { name := head.name, hash := some c.hash, time := now }
      have spec := moveHead_spec repo
        ((store.storeIndex head.name idx.hash (repo.getAtoms.map .atom)).storeObjects head.name
          [.index idx, .commit c]) moved now
      simp only [CausalRepo.commit, changes, found, if_true]
      exact ⟨head, moved, rfl, rfl, spec.2.1, spec.2.2⟩

theorem others_put (store after : MemoryCausalRepoStore T) (moved : CausalRepoBranch)
    (put : after.branches = putBranch moved store.branches) :
    others moved.name after = others moved.name store := by
  rw [others, put, putBranch_others, others]

theorem names_put (store after : MemoryCausalRepoStore T) (moved : CausalRepoBranch)
    (put : after.branches = putBranch moved store.branches) : moved.name ∈ names after := by
  rw [names, put]
  exact List.mem_map_of_mem (mem_putBranch moved store.branches)

section Calls

variable {hashes : Hashes T} {name : JsString} {repo : CausalRepo T} {store : MemoryCausalRepoStore T}

theorem absent_of_nil (none : store.getBranches name = []) : name ∉ names store := by
  intro present
  rcases getBranches_first store name present with ⟨b, rest, found, _⟩
  rw [none] at found
  cases found

theorem proper_move (op : Op T) (branch : CausalRepoBranch) (now : Int) (named : branch.name = name)
    (should : ShouldOpen store name op ↔ Loads store branch) :
    Proper name store op (repo.moveHead store branch now) ∧
      Clear (repo.moveHead store branch now).store name := by
  have moved := moveHead_spec repo store branch now
  subst named
  refine ⟨⟨fun _ => moved.1.trans should.symm, fun _ _ => ?_, fun head found => ?_, ?_⟩, .inl ?_⟩
  · rw [moved.2.1]
    exact Option.some_ne_none _
  · rw [moved.2.1, Option.some.injEq] at found
    rw [← found]
  · exact others_put store _ branch moved.2.2
  · exact names_put store _ branch moved.2.2

theorem proper_createBranch (hash : Option JsString) (now : Int)
    (heads : ∀ head, repo.head = some head → head.name = name) (clear : Clear store name) :
    Proper name store (.createBranch hash now) (repo.createBranch store name hash now) ∧
      Clear (repo.createBranch store name hash now).store name := by
  cases found : store.getBranches name with
  | nil =>
    have absent := absent_of_nil found
    simp only [createBranch, found]
    apply proper_move _ { name := name, hash := hash.filter (· ≠ []), time := now } now (by rfl)
    exact ⟨fun should => should.2, fun loads => ⟨absent, loads⟩⟩
  | cons b rest =>
    have present : name ∈ names store := by
      rcases clear with present | apart
      · exact present
      · rw [(getBranches_nil store name).mpr apart] at found
        cases found
    simp only [createBranch, found]
    refine ⟨⟨fun _ => ?_, fun _ ok => ?_, heads, rfl⟩, clear⟩
    · simp [ShouldOpen, present, Except.isOk, Except.toBool]
    · simp [Except.isOk, Except.toBool] at ok

theorem proper_checkout (create : Option (Option JsString)) (now : Int)
    (heads : ∀ head, repo.head = some head → head.name = name) (clear : Clear store name) :
    Proper name store (.checkout create now) (repo.checkout store name create now) ∧
      Clear (repo.checkout store name create now).store name := by
  cases found : store.getBranches name with
  | nil =>
    have absent := absent_of_nil found
    have unnamed : ∀ b ∈ store.branches, b.name ≠ name := fun b member same =>
      absent (List.mem_map.mpr ⟨b, member, same⟩)
    cases create with
    | none =>
      simp only [checkout, found]
      refine ⟨⟨fun _ => ?_, fun _ ok => ?_, heads, rfl⟩, clear⟩
      · simp only [ShouldOpen, Except.isOk, Except.toBool]
        constructor
        · intro impossible
          cases impossible
        · intro should
          rcases should with ⟨b, member, same, _⟩ | ⟨_, hash, impossible, _⟩
          · exact absurd same (unnamed b member)
          · cases impossible
      · simp [Except.isOk, Except.toBool] at ok
    | some hash =>
      simp only [checkout, found, createBranch]
      apply proper_move _ { name := name, hash := hash.filter (· ≠ []), time := now } now (by rfl)
      constructor
      · intro should
        rcases should with ⟨b, member, same, _⟩ | ⟨_, other, same, loads⟩
        · exact absurd same (unnamed b member)
        · rw [Option.some.injEq] at same
          exact same ▸ loads
      · exact fun loads => .inr ⟨absent, hash, rfl, loads⟩
  | cons b rest =>
    have present : name ∈ names store := by
      rcases clear with present | apart
      · exact present
      · rw [(getBranches_nil store name).mpr apart] at found
        cases found
    rcases getBranches_first store name present with ⟨own, _, first, inStore, named⟩
    rw [found, List.cons.injEq] at first
    simp only [checkout, found]
    apply proper_move _ _ _ (first.1 ▸ named)
    constructor
    · intro should
      rcases should with ⟨other, member, same, loads⟩ | ⟨absent, _⟩
      · exact same_branch store other b member (first.1 ▸ inStore)
          (same.trans (first.1 ▸ named).symm) ▸ loads
      · exact absurd present absent
    · exact fun loads => .inl ⟨b, first.1 ▸ inStore, first.1 ▸ named, loads⟩

theorem proper_commit (message : JsString) (time now : Int)
    (heads : ∀ head, repo.head = some head → head.name = name) (clear : Clear store name) :
    Proper name store (.commit message time now) (call hashes name repo store (.commit message time now)) ∧
      Clear (call hashes name repo store (.commit message time now)).store name := by
  rcases commit_spec repo store hashes message time now with ⟨same, kept⟩ | ⟨head, moved, had, named, now, put⟩
  · refine ⟨⟨fun opens => opens.elim, fun opens => opens.elim, fun head found => ?_, ?_⟩, ?_⟩
    · exact heads head (same ▸ found)
    · simp only [call, others, kept]
    · simpa only [Clear, names, call, kept] using clear
  · have own : moved.name = name := named.trans (heads head had)
    subst own
    refine ⟨⟨fun opens => opens.elim, fun opens => opens.elim, fun head found => ?_, ?_⟩, .inl ?_⟩
    · rw [call, now, Option.some.injEq] at found
      rw [← found]
    · exact others_put store _ moved put
    · exact names_put store _ moved put

variable (hashes) in
theorem proper_call (op : Op T) (heads : ∀ head, repo.head = some head → head.name = name) (clear : Clear store name) :
    Proper name store op (call hashes name repo store op) ∧
      Clear (call hashes name repo store op).store name := by
  cases op with
  | checkout create now => exact proper_checkout create now heads clear
  | createBranch hash now => exact proper_createBranch hash now heads clear
  | addMany atoms =>
    refine ⟨⟨fun opens => opens.elim, fun opens => opens.elim, fun head found => ?_, rfl⟩, clear⟩
    exact heads head ((addMany_head repo atoms).symm.trans found)
  | removeMany removed =>
    refine ⟨⟨fun opens => opens.elim, fun opens => opens.elim, fun head found => ?_, rfl⟩, clear⟩
    exact heads head ((removeMany_head repo removed).symm.trans found)
  | commit message time now => exact proper_commit message time now heads clear

end Calls

/-! ### Sequences of calls -/

theorem isolated_of_clear (hashes : Hashes T) (name : JsString) (repo : CausalRepo T)
    (store : MemoryCausalRepoStore T) (ops : List (Op T))
    (heads : ∀ head, repo.head = some head → head.name = name) (clear : Clear store name) :
    Isolated hashes name repo store ops := by
  induction ops generalizing repo store with
  | nil => trivial
  | cons op rest ih =>
    have first := proper_call hashes op heads clear
    exact ⟨first.1, ih _ _ first.1.head first.2⟩

/-- A new repository keeps to the branch of the name if and only if the name is a branch or no branch
begins with it. -/
theorem isolated_iff_clear (hashes : Hashes T) (name : JsString) (store : MemoryCausalRepoStore T) :
    (∀ ops, Isolated hashes name CausalRepo.new store ops) ↔ Clear store name := by
  constructor
  · intro isolated
    by_contra blocked
    simp only [Clear, not_or, not_forall, not_not] at blocked
    rcases blocked with ⟨absent, b, member, begins⟩
    have created := (isolated [.createBranch none 0]).1.opened trivial
    have should : ShouldOpen store name (.createBranch none 0 : Op T) := ⟨absent, rfl⟩
    have found : b ∈ store.getBranches name := (mem_getBranches store name b).mpr ⟨member, begins⟩
    have succeeded := created.mpr should
    cases branches : store.getBranches name with
    | nil => rw [branches] at found; cases found
    | cons first rest =>
      simp [call, createBranch, branches, Except.isOk, Except.toBool] at succeeded
  · intro clear ops
    apply isolated_of_clear hashes name CausalRepo.new store ops _ clear
    intro head found
    cases found

/-! ### A branch that hides a missing one -/

def sampleHashes : Hashes Unit where
  ofAtom := HashText.unitHash
  ofList := fun texts => 2 :: texts.flatMap HashText.block
  ofCommit := fun input => 3 :: (HashText.block input.message ++ HashText.block input.index)

def longerStore : MemoryCausalRepoStore Unit :=
  MemoryCausalRepoStore.new.saveBranch { name := JsString.lit ['a', 'b'], hash := none, time := 0 } 0

/-- The branch "a" is taken for the branch "ab". -/
theorem longer_hides_shorter :
    ¬ ∀ ops, Isolated sampleHashes (JsString.lit ['a']) CausalRepo.new longerStore ops := by
  intro isolated
  have first := (isolated [.checkout (some none) 0]).1.head
    { name := JsString.lit ['a', 'b'], hash := none, time := 0 } (by decide +kernel)
  exact absurd first (by decide +kernel)

end CasualOS.BranchIsolation

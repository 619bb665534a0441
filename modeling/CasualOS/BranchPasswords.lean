import CasualOS.Lib.Run
import CasualOS.StageReplay

/-! The password of one branch, over the handlers of the server that use it. A handler is cut at its
awaits, and the handlers of all devices take turns. -/

namespace CasualOS.BranchPasswords

open Run
open Option (some)

variable {D : Type}

/-- What a handler does once `_getOrLoadRepo` has given it the repository. -/
inductive Next where
  | watchBranch
  | addAtoms
  | authenticate (password : JsString)
  deriving DecidableEq, Repr

/-- One call of `_loadRepo` or `_createEmptyRepo`, with the password hash of the settings it gives. -/
inductive Load where
  | loading (temporary : Bool)
  | settingsRead (passwordHash : Option JsString)
  | done (passwordHash : Option JsString)
  | failed
  deriving DecidableEq, Repr

/-- A handler at the await where it stands. Repositories and promises are named by their load. -/
inductive Handler (D : Type) where
  | asking (device : D) (temporary : Bool) (next : Next)
  | waiting (device : D) (load : Nat) (next : Next)
  | given (device : D) (repo : Nat) (next : Next)
  | verifying (oldPassword newHash : JsString) (settings : Option JsString)
  | saved (repo : Option Nat) (newHash : JsString)
  | leaving
  | unloading (promise : Option Nat)
  | committing
  deriving DecidableEq, Repr

/-- What the server keeps for the branch. `saved` is the password hash of the settings in the store, and
`presented` is the history of the accepted passwords since the current one was set. -/
structure Branch (D : Type) where
  saved : Option JsString
  loads : List Load
  repos : Option Nat
  repoPromises : Option Nat
  branchAuthentications : List D
  watchers : List D
  handlers : List (Handler D)
  presented : List (D × JsString)
  deriving DecidableEq

def idle (saved : Option JsString) : Branch D where
  saved := saved
  loads := []
  repos := none
  repoPromises := none
  branchAuthentications := []
  watchers := []
  handlers := []
  presented := []

def passwordHash (loads : List Load) (repo : Nat) : Option JsString :=
  match loads[repo]? with
  | some (.done hash) => hash
  | _ => none

namespace Branch

def current (s : Branch D) : Option JsString :=
  match s.repos with
  | some repo => passwordHash s.loads repo
  | none => s.saved

def push (s : Branch D) (handler : Handler D) : Branch D :=
  { s with handlers := handler :: s.handlers }

/-- `_tryUnloadBranch`, up to the await of the promise. -/
def tryUnload (s : Branch D) : Branch D :=
  if s.watchers = [] then s.push (.unloading s.repoPromises) else s

def getOrLoadRepo (s : Branch D) (device : D) (temporary : Bool) (next : Next) : Branch D :=
  match s.repos, s.repoPromises with
  | some repo, _ => s.push (.given device repo next)
  | none, some load => s.push (.waiting device load next)
  | none, none =>
    push
      { s with
        loads := s.loads ++ [.loading temporary]
        repoPromises := some s.loads.length }
      (.waiting device s.loads.length next)

end Branch

section Steps

variable (verifyPassword : JsString → JsString → Bool)

/-- The password that an unprotected branch is opened with. -/
def defaultPassword : JsString := JsString.lit ['3', '3', '4', '2']

def accepts (hash : Option JsString) (password : JsString) : Bool :=
  match hash.filter (· ≠ []) with
  | some hash => verifyPassword password hash
  | none => password = defaultPassword

/-- A handler goes on from its await to the next one; it is no longer among the handlers of `s`. -/
def resume (s : Branch D) : Handler D → Option (Branch D)
  | .asking device temporary next => some (s.getOrLoadRepo device temporary next)
  | .waiting device load next =>
    match s.loads[load]? with
    | some (.done _) => some ({ s with repos := some load }.push (.given device load next))
    | some .failed => some s
    | _ => none
  | .given _ _ .watchBranch | .given _ _ .addAtoms => some s
  | .given device repo (.authenticate password) =>
    if accepts verifyPassword (passwordHash s.loads repo) password then
      some { s with
        branchAuthentications := device :: s.branchAuthentications
        presented := (device, password) :: s.presented }.tryUnload
    else some s.tryUnload
  | .verifying oldPassword newHash settings =>
    if accepts verifyPassword settings oldPassword then
      some ({ s with saved := some newHash }.push (.saved none newHash))
    else some s
  | .saved none _ => some s
  | .saved (some repo) newHash =>
    some { s with
      loads := s.loads.set repo (.done (some newHash))
      branchAuthentications := [] }
  | .leaving => some s.tryUnload
  | .unloading none => some ({ s with repoPromises := none }.push .committing)
  | .unloading (some load) =>
    match s.loads[load]? with
    | some (.done _) => some ({ s with repoPromises := none }.push .committing)
    | some .failed => some s
    | _ => none
  | .committing => some { s with repos := none }

inductive Label (D : Type) where
  | watchBranch (device : D) (temporary : Bool)
  | addAtoms (device : D) (isTemp : Bool)
  | authenticate (device : D) (password : JsString)
  | setPassword (oldPassword newPassword newHash : JsString)
  /-- `UNWATCH_BRANCH`, or what a disconnect does to the channel of the branch. -/
  | leave (device : D)
  | resume (handler : Nat)
  | readSettings (load : Nat)
  | finishLoad (load : Nat)
  | failLoad (load : Nat)

def take [DecidableEq D] (s : Branch D) : Label D → Option (Branch D)
  | .watchBranch device temporary =>
    some ({ s with watchers := s.watchers ++ [device] }.push (.asking device temporary .watchBranch))
  | .addAtoms device isTemp => some (s.push (.asking device isTemp .addAtoms))
  | .authenticate device password => some (s.push (.asking device false (.authenticate password)))
  | .setPassword oldPassword newPassword newHash =>
    -- the new hash is one that `hashPassword` may give, with any salt
    if verifyPassword newPassword newHash then
      match s.repos with
      | some repo =>
        if accepts verifyPassword (passwordHash s.loads repo) oldPassword then
          some ({ s with saved := some newHash }.push (.saved (some repo) newHash))
        else some s
      | none => some (s.push (.verifying oldPassword newHash s.saved))
    else none
  | .leave device =>
    if s.watchers = [] then some s
    else some ({ s with watchers := s.watchers.erase device }.push .leaving)
  | .resume i =>
    match s.handlers[i]? with
    | some handler => resume verifyPassword { s with handlers := s.handlers.eraseIdx i } handler
    | none => none
  | .readSettings load =>
    match s.loads[load]? with
    | some (.loading true) => some { s with loads := s.loads.set load (.done none) }
    | some (.loading false) => some { s with loads := s.loads.set load (.settingsRead s.saved) }
    | _ => none
  | .finishLoad load =>
    match s.loads[load]? with
    | some (.settingsRead hash) => some { s with loads := s.loads.set load (.done hash) }
    | _ => none
  | .failLoad load =>
    match s.loads[load]? with
    | some (.loading false) => some { s with loads := s.loads.set load .failed }
    | _ => none

def step [DecidableEq D] (s : Branch D) (label : Label D) : Option (Branch D) :=
  (take verifyPassword s label).map
    (fun next => if next.current = s.current then next else { next with presented := [] })

end Steps

/-! ### When a password may be changed -/

def Handler.repo : Handler D → Option Nat
  | .waiting _ load _ => some load
  | .given _ repo _ => some repo
  | .saved repo _ => repo
  | _ => none

/-- A change of the password that is saved and that the loaded repository does not show yet. -/
def Handler.change : Handler D → Option (Nat × JsString)
  | .saved (some repo) newHash => some (repo, newHash)
  | _ => none

namespace Branch

def changing (s : Branch D) : List (Nat × JsString) := s.handlers.filterMap Handler.change

def refers (s : Branch D) (load : Nat) : Prop :=
  s.repos = some load ∨ s.repoPromises = some load ∨ ∃ h ∈ s.handlers, h.repo = some load

/-- Something goes on with the load, or with its repository. -/
def Held (s : Branch D) (load : Nat) : Prop := s.refers load ∧ s.loads[load]? ≠ some .failed

def Shows (s : Branch D) (load : Nat) (hash : Option JsString) : Prop :=
  s.loads[load]? = some (.settingsRead hash) ∨ s.loads[load]? = some (.done hash)

end Branch

/-- Where a handler may go on: it changes a password only if nothing of the branch is in use and nobody
is authenticated for it, and it unloads the branch only if no change is under way. -/
def GoesOn (verifyPassword : JsString → JsString → Bool) (s : Branch D) : Handler D → Prop
  | .verifying oldPassword _ settings => accepts verifyPassword settings oldPassword = true →
      s.changing = [] ∧ s.branchAuthentications = [] ∧ s.repos = none ∧ ∀ load, ¬ s.Held load
  | .committing => s.changing = []
  | _ => True

/-- The password of a loaded branch is changed while only that repository is in use, and a branch is
temporary only if no password is stored for it. -/
def Allowed (verifyPassword : JsString → JsString → Bool) (s : Branch D) : Label D → Prop
  | .setPassword oldPassword _ _ => ∀ repo, s.repos = some repo →
      accepts verifyPassword (passwordHash s.loads repo) oldPassword = true →
      s.changing = [] ∧ ∀ load, s.Held load → load = repo
  | .resume i => ∀ handler, s.handlers[i]? = some handler → GoesOn verifyPassword s handler
  | .readSettings load => s.loads[load]? = some (.loading true) → s.saved = none
  | _ => True

/-! ### What holds in every state -/

/-- Whatever is in use shows the current password hash. -/
structure Sound (s : Branch D) : Prop where
  made : ∀ repo, (s.repos = some repo ∨ ∃ d next, .given d repo next ∈ s.handlers) →
    ∃ hash, s.loads[repo]? = some (.done hash)
  settled : s.changing = [] → ∀ load hash, s.Held load → s.Shows load hash → hash = s.saved
  window : ∀ repo hash, (repo, hash) ∈ s.changing → s.changing = [(repo, hash)] ∧
    s.saved = some hash ∧ s.repos = some repo ∧ ∀ load, s.Held load → load = repo

/-- Every authenticated device presented the current password. -/
def Known (verifyPassword : JsString → JsString → Bool) (s : Branch D) : Prop :=
  ∀ d ∈ s.branchAuthentications, ∀ hash, s.current = some hash → hash ≠ [] →
    ∃ password, (d, password) ∈ s.presented ∧ verifyPassword password hash = true

namespace Sound

variable {s t : Branch D}

theorem held_done {load : Nat} {hash : Option JsString} (inUse : s.refers load)
    (done : s.loads[load]? = some (.done hash)) : s.Held load := by
  refine ⟨inUse, ?_⟩
  rw [done]
  simp

theorem passwordHash_done (loads : List Load) (repo : Nat) (hash : Option JsString)
    (done : loads[repo]? = some (.done hash)) : passwordHash loads repo = hash := by
  simp only [passwordHash, done]

theorem hash_eq (sound : Sound s) (load : Nat) (hash : Option JsString) (held : s.Held load)
    (done : s.loads[load]? = some (.done hash)) : hash = s.current := by
  cases changes : s.changing with
  | nil =>
    have stored := sound.settled changes load hash held (.inr done)
    cases live : s.repos with
    | none => simp only [Branch.current, live, stored]
    | some repo =>
      have ⟨other, doneRepo⟩ := sound.made repo (.inl live)
      have heldRepo := held_done (.inl live) doneRepo
      have storedRepo := sound.settled changes repo other heldRepo (.inr doneRepo)
      simp only [Branch.current, live, passwordHash_done _ _ _ doneRepo, stored, storedRepo]
  | cons change rest =>
    have ⟨_, _, live, only⟩ := sound.window change.1 change.2 (by simp [changes])
    have same := only load held
    subst same
    simp only [Branch.current, live, passwordHash_done _ _ _ done]

theorem current_eq (sound : Sound s) (changes : s.changing = []) : s.current = s.saved := by
  cases live : s.repos with
  | none => simp only [Branch.current, live]
  | some repo =>
    have ⟨hash, done⟩ := sound.made repo (.inl live)
    have held := held_done (.inl live) done
    rw [← sound.hash_eq repo hash held done]
    exact sound.settled changes repo hash held (.inr done)

/-- A step that takes nothing into use and leaves the loads and the stored hash as they are. -/
theorem quiet (sound : Sound s) (loads : t.loads = s.loads) (saved : t.saved = s.saved)
    (changing : t.changing = s.changing) (refers : ∀ load, t.refers load → s.refers load)
    (made : ∀ repo, (t.repos = some repo ∨ ∃ d next, .given d repo next ∈ t.handlers) →
      ∃ hash, s.loads[repo]? = some (.done hash)) (live : t.repos = s.repos ∨ s.changing = []) : Sound t := by
  have held : ∀ load, t.Held load → s.Held load := by
    intro load ⟨inUse, good⟩
    rw [loads] at good
    exact ⟨refers load inUse, good⟩
  refine ⟨fun repo inUse => loads ▸ made repo inUse, fun none load hash inUse shown => ?_, ?_⟩
  · rw [saved]
    apply sound.settled (changing ▸ none) load hash (held load inUse)
    simpa only [Branch.Shows, loads] using shown
  · intro repo hash member
    rw [changing] at member
    have ⟨only, stored, liveRepo, all⟩ := sound.window repo hash member
    have kept : t.repos = some repo := by
      rcases live with same | none
      · rw [same, liveRepo]
      · simp [none] at member
    exact ⟨changing ▸ only, saved ▸ stored, kept, fun load inUse => all load (held load inUse)⟩

theorem perm (sound : Sound s) (handlers : List (Handler D)) (same : handlers.Perm s.handlers) :
    Sound { s with handlers := handlers } := by
  have changing : ({ s with handlers := handlers } : Branch D).changing.Perm s.changing :=
    same.filterMap _
  have refers : ∀ load, ({ s with handlers := handlers } : Branch D).Held load → s.Held load := by
    intro load ⟨inUse, good⟩
    simp only [Branch.refers, same.mem_iff] at inUse
    exact ⟨inUse, good⟩
  refine ⟨fun repo inUse => sound.made repo (by simpa only [same.mem_iff] using inUse),
    fun none load hash inUse shown => ?_, fun repo hash member => ?_⟩
  · rw [none] at changing
    exact sound.settled changing.nil_eq.symm load hash (refers load inUse) shown
  · have ⟨only, stored, live, all⟩ := sound.window repo hash (changing.mem_iff.mp member)
    rw [only] at changing
    exact ⟨List.perm_singleton.mp changing, stored, live, fun load inUse => all load (refers load inUse)⟩

end Sound

namespace Branch

variable (s : Branch D) (h : Handler D)

@[simp] theorem push_saved : (s.push h).saved = s.saved := rfl
@[simp] theorem push_loads : (s.push h).loads = s.loads := rfl
@[simp] theorem push_repos : (s.push h).repos = s.repos := rfl
@[simp] theorem push_repoPromises : (s.push h).repoPromises = s.repoPromises := rfl
@[simp] theorem push_authentications : (s.push h).branchAuthentications = s.branchAuthentications := rfl
@[simp] theorem push_presented : (s.push h).presented = s.presented := rfl
@[simp] theorem push_handlers : (s.push h).handlers = h :: s.handlers := rfl
@[simp] theorem push_current : (s.push h).current = s.current := rfl

theorem push_refers (load : Nat) : (s.push h).refers load ↔ s.refers load ∨ h.repo = some load := by
  simp only [refers, push_repos, push_repoPromises, push_handlers, List.mem_cons, exists_eq_or_imp]
  grind

theorem push_changing : (s.push h).changing = h.change.toList ++ s.changing := by
  cases shown : h.change <;> simp [changing, shown]

end Branch

section Step

variable {s t next : Branch D} {h : Handler D}

theorem Sound.drop (sound : Sound (t.push h)) (ends : h.change = none) : Sound t := by
  refine sound.quiet rfl rfl ?_ (fun load inUse => ?_) (fun repo inUse => ?_) (.inl rfl)
  · rw [Branch.push_changing, ends]
    rfl
  · exact (Branch.push_refers t h load).mpr (.inl inUse)
  · apply sound.made repo
    exact inUse.imp id (fun ⟨d, n, member⟩ => ⟨d, n, List.mem_cons_of_mem _ member⟩)

theorem Sound.start (sound : Sound s) (begins : h.change = none) (repo : ∀ load, h.repo = some load → s.refers load)
    (made : ∀ d repo n, h = .given d repo n → ∃ hash, s.loads[repo]? = some (.done hash)) :
    Sound (s.push h) := by
  refine sound.quiet rfl rfl ?_ (fun load inUse => ?_) (fun repo inUse => ?_) (.inl rfl)
  · rw [Branch.push_changing, begins]
    rfl
  · exact ((Branch.push_refers s h load).mp inUse).elim id (repo load)
  · rcases inUse with live | ⟨d, n, member⟩
    · exact sound.made repo (.inl live)
    · rcases List.mem_cons.mp member with here | there
      · exact made d repo n here.symm
      · exact sound.made repo (.inr ⟨d, n, there⟩)

/-- A password is saved while only the loaded repository is in use. -/
theorem Sound.save (sound : Sound s) {repo : Nat} (live : s.repos = some repo) (newHash : JsString)
    (still : s.changing = []) (only : ∀ load, s.Held load → load = repo) :
    Sound ({ s with saved := some newHash }.push (.saved (some repo) newHash)) := by
  have changing : ({ s with saved := some newHash }.push (.saved (some repo) newHash)).changing =
      [(repo, newHash)] := by
    rw [Branch.push_changing]
    exact congrArg ((repo, newHash) :: ·) still
  refine ⟨fun other inUse => ?_, fun none => ?_, fun other hash member => ?_⟩
  · apply sound.made other
    simpa using inUse
  · rw [changing] at none
    cases none
  · rw [changing, List.mem_singleton, Prod.mk.injEq] at member
    have ⟨sameRepo, sameHash⟩ := member
    subst sameRepo sameHash
    refine ⟨changing, rfl, live, fun load ⟨inUse, good⟩ => ?_⟩
    rcases (Branch.push_refers _ _ load).mp inUse with refers | new
    · exact only load ⟨refers, good⟩
    · exact (some.inj new).symm

theorem Sound.front {i : Nat} (sound : Sound s) (found : s.handlers[i]? = some h) :
    Sound ({ s with handlers := s.handlers.eraseIdx i }.push h) := by
  have ⟨inside, same⟩ := List.getElem?_eq_some_iff.mp found
  have perm := List.getElem_cons_eraseIdx_perm inside
  rw [same] at perm
  exact sound.perm _ perm

theorem Sound.tryUnload (sound : Sound s) : Sound s.tryUnload := by
  unfold Branch.tryUnload
  split
  · exact sound.start rfl (by simp [Handler.repo]) (by simp)
  · exact sound

theorem Sound.load (sound : Sound s) (unloaded : s.repos = none) (device : D) (temporary : Bool)
    (n : Next) : Sound (Branch.push
      { s with loads := s.loads ++ [.loading temporary], repoPromises := some s.loads.length }
      (.waiting device s.loads.length n)) := by
  have none : s.changing = [] := by
    cases changes : s.changing with
    | nil => rfl
    | cons change rest =>
      have live := (sound.window change.1 change.2 (by simp [changes])).2.2.1
      rw [unloaded] at live
      cases live
  have changing : (Branch.push { s with loads := s.loads ++ [.loading temporary], repoPromises := some s.loads.length }
      (.waiting device s.loads.length n)).changing = [] := none
  have old : ∀ (load : Nat) (l : Load), s.loads[load]? = some l →
      (s.loads ++ [Load.loading temporary])[load]? = some l := by
    intro load l found
    rw [List.getElem?_append_left (List.getElem?_eq_some_iff.mp found).1, found]
  have kept : ∀ (load : Nat) (l : Load), (s.loads ++ [Load.loading temporary])[load]? = some l →
      l ≠ .loading temporary → load ≠ s.loads.length ∧ s.loads[load]? = some l := by
    intro load l found other
    rw [List.getElem?_append] at found
    split at found
    · next inside => exact ⟨by omega, found⟩
    · have ⟨_, same⟩ := List.getElem?_eq_some_iff.mp found
      simp at same
      exact absurd same.symm other
  refine ⟨fun repo inUse => ?_, fun _ load hash inUse shown => ?_, fun repo hash member => ?_⟩
  · have ⟨hash, done⟩ : ∃ hash, s.loads[repo]? = some (.done hash) := by
      apply sound.made repo
      simpa using inUse
    exact ⟨hash, old repo _ done⟩
  · have ⟨apart, before⟩ : load ≠ s.loads.length ∧ s.Shows load hash := by
      rcases shown with read | done
      · exact (kept load _ read (by simp)).imp id .inl
      · exact (kept load _ done (by simp)).imp id .inr
    apply sound.settled none load hash ⟨?_, ?_⟩ before
    · have refers : s.repos = some load ∨ ∃ h ∈ s.handlers, h.repo = some load := by
        simpa [Branch.refers, Handler.repo, Ne.symm apart] using inUse.1
      exact refers.imp id .inr
    · rcases before with read | done
      · simp [read]
      · simp [done]
  · rw [changing] at member
    cases member

theorem Sound.getOrLoadRepo (sound : Sound s) (device : D) (temporary : Bool) (n : Next) :
    Sound (s.getOrLoadRepo device temporary n) := by
  unfold Branch.getOrLoadRepo
  split
  · next _ _ repo live =>
      apply sound.start rfl
      · intro load same
        exact .inl (same ▸ live)
      · intro d other n same
        cases same
        exact sound.made repo (.inl live)
  · next _ _ load _ promised =>
      apply sound.start rfl
      · intro other same
        exact .inr (.inl (same ▸ promised))
      · simp
  · next _ _ unloaded _ => exact sound.load unloaded device temporary n

theorem Sound.advance (sound : Sound s) (load : Nat) (old new : Load)
    (found : s.loads[load]? = some old) (unfinished : ∀ hash, old ≠ .done hash) (good : old ≠ .failed)
    (shows : ∀ hash, new = .settingsRead hash ∨ new = .done hash →
      old = .settingsRead hash ∨ hash = s.saved) : Sound { s with loads := s.loads.set load new } := by
  have same : (s.loads.set load new)[load]? = some new := by
    rw [List.getElem?_set_self (List.getElem?_eq_some_iff.mp found).1]
  have held : ∀ other, ({ s with loads := s.loads.set load new } : Branch D).Held other → s.Held other := by
    intro other ⟨inUse, notFailed⟩
    refine ⟨inUse, ?_⟩
    by_cases here : load = other
    · subst here
      simp [found, good]
    · rwa [← List.getElem?_set_ne here]
  refine ⟨fun repo inUse => ?_, fun none other hash inUse shown => ?_, fun repo hash member => ?_⟩
  · have ⟨hash, done⟩ := sound.made repo inUse
    have apart : load ≠ repo := by
      intro here
      rw [here, done] at found
      exact unfinished hash (some.inj found).symm
    exact ⟨hash, by rw [List.getElem?_set_ne apart, done]⟩
  · have before := held other inUse
    by_cases here : load = other
    · subst here
      have shows' := shows hash (by simpa [Branch.Shows, same] using shown)
      rcases shows' with read | stored
      · exact sound.settled none load hash before (.inl (read ▸ found))
      · exact stored
    · apply sound.settled none other hash before
      simpa only [Branch.Shows, List.getElem?_set_ne here] using shown
  · have ⟨only, stored, live, all⟩ := sound.window repo hash member
    exact ⟨only, stored, live, fun other inUse => all other (held other inUse)⟩

theorem Sound.current_advance (sound : Sound s) (load : Nat) (old new : Load)
    (found : s.loads[load]? = some old) (unfinished : ∀ hash, old ≠ .done hash) :
    ({ s with loads := s.loads.set load new } : Branch D).current = s.current := by
  cases live : s.repos with
  | none => simp only [Branch.current, live]
  | some repo =>
    have ⟨hash, done⟩ := sound.made repo (.inl live)
    have apart : load ≠ repo := by
      intro here
      rw [here, done] at found
      exact unfinished hash (some.inj found).symm
    simp only [Branch.current, live, passwordHash, List.getElem?_set_ne apart]

theorem Sound.complete {repo : Nat} {newHash : JsString} (sound : Sound (t.push (.saved (some repo) newHash))) : Sound
      { t with loads := t.loads.set repo (.done (some newHash)), branchAuthentications := [] } := by
  have pushed : (t.push (.saved (some repo) newHash)).changing = (repo, newHash) :: t.changing := by
    simp [Branch.push_changing, Handler.change]
  have ⟨only, stored, live, all⟩ := sound.window repo newHash (by simp [pushed])
  have rest : t.changing = [] := by
    rw [pushed] at only
    exact (List.cons.inj only).2
  have ⟨hash, done⟩ := sound.made repo (.inl live)
  have same : (t.loads.set repo (.done (some newHash)))[repo]? = some (.done (some newHash)) :=
    List.getElem?_set_self (List.getElem?_eq_some_iff.mp done).1
  have held : ∀ load, t.refers load →
      (t.loads.set repo (.done (some newHash)))[load]? ≠ some .failed → load = repo := by
    intro load inUse notFailed
    by_cases here : repo = load
    · exact here.symm
    · rw [List.getElem?_set_ne here] at notFailed
      exact all load ⟨(Branch.push_refers t _ load).mpr (.inl inUse), notFailed⟩
  refine ⟨fun other inUse => ?_, fun _ load hash inUse shown => ?_, fun other hash member => ?_⟩
  · by_cases here : repo = other
    · exact ⟨some newHash, here ▸ same⟩
    · have ⟨hash, done⟩ := sound.made other (inUse.imp id (fun ⟨d, n, member⟩ => ⟨d, n, List.mem_cons_of_mem _ member⟩))
      exact ⟨hash, by rw [List.getElem?_set_ne here, ← done]; rfl⟩
  · rw [held load inUse.1 inUse.2] at shown
    have shows : hash = some newHash := by
      simpa [Branch.Shows, same, eq_comm] using shown
    rw [shows]
    exact stored.symm
  · have none : (other, hash) ∈ t.changing := member
    simp [rest] at none

end Step

/-! ### One step -/

section Keeps

variable {verifyPassword : JsString → JsString → Bool} {s t next : Branch D}

/-- Either the password stays, and the authenticated devices know it, or nobody is authenticated. -/
structure Keeps (verifyPassword : JsString → JsString → Bool) (s next : Branch D) : Prop where
  sound : Sound next
  known : next.current = s.current ∧ Known verifyPassword next ∨ next.branchAuthentications = []

theorem Known.congr (known : Known verifyPassword s) (current : next.current = s.current)
    (authentications : next.branchAuthentications = s.branchAuthentications)
    (presented : next.presented = s.presented) : Known verifyPassword next := by
  intro d inside hash shown filled
  rw [authentications] at inside
  rw [current] at shown
  rw [presented]
  exact known d inside hash shown filled

theorem keeps_same (sound : Sound next) (known : Known verifyPassword s) (current : next.current = s.current)
    (authentications : next.branchAuthentications = s.branchAuthentications)
    (presented : next.presented = s.presented) : Keeps verifyPassword s next :=
  ⟨sound, .inl ⟨current, known.congr current authentications presented⟩⟩

theorem tryUnload_same (s : Branch D) : s.tryUnload.current = s.current ∧
    s.tryUnload.branchAuthentications = s.branchAuthentications ∧ s.tryUnload.presented = s.presented := by
  unfold Branch.tryUnload
  split
  · exact ⟨rfl, rfl, rfl⟩
  · exact ⟨rfl, rfl, rfl⟩

theorem getOrLoadRepo_same (s : Branch D) (device : D) (temporary : Bool) (n : Next) :
    (s.getOrLoadRepo device temporary n).current = s.current ∧
    (s.getOrLoadRepo device temporary n).branchAuthentications = s.branchAuthentications ∧
    (s.getOrLoadRepo device temporary n).presented = s.presented := by
  unfold Branch.getOrLoadRepo
  split
  · exact ⟨rfl, rfl, rfl⟩
  · exact ⟨rfl, rfl, rfl⟩
  · next _ _ unloaded _ =>
      refine ⟨?_, rfl, rfl⟩
      simp [Branch.current, Branch.push, unloaded]

variable {h : Handler D}

theorem changing_drop (still : (t.push h).changing = []) : t.changing = [] := by
  rw [Branch.push_changing, List.append_eq_nil_iff] at still
  exact still.2

theorem accepts_some (hash password : JsString) (filled : hash ≠ [])
    (accepted : accepts verifyPassword (some hash) password = true) :
    verifyPassword password hash = true := by
  have kept : (some hash).filter (· ≠ []) = some hash := by simp [filled]
  rw [accepts, kept] at accepted
  exact accepted

theorem authenticate_keeps (device : D) (repo : Nat) (password : JsString)
    (sound : Sound (t.push (.given device repo (.authenticate password))))
    (known : Known verifyPassword t)
    (accepted : accepts verifyPassword (passwordHash t.loads repo) password = true) :
    Keeps verifyPassword t
      { t with
        branchAuthentications := device :: t.branchAuthentications
        presented := (device, password) :: t.presented }.tryUnload := by
  have ⟨hash, done⟩ := sound.made repo (.inr ⟨device, _, List.mem_cons_self⟩)
  have current : passwordHash t.loads repo = t.current := by
    have inUse : (t.push (.given device repo (.authenticate password))).refers repo :=
      (Branch.push_refers t _ repo).mpr (.inr rfl)
    have shown := sound.hash_eq repo hash (Sound.held_done inUse done) done
    exact (Sound.passwordHash_done _ _ _ done).trans shown
  let added : Branch D := { t with
    branchAuthentications := device :: t.branchAuthentications
    presented := (device, password) :: t.presented }
  have ended : Sound added := (sound.drop rfl).quiet rfl rfl rfl (fun _ inUse => inUse)
    (fun repo inUse => (sound.drop rfl).made repo inUse) (.inl rfl)
  have ⟨sameCurrent, sameAuthentications, samePresented⟩ := tryUnload_same added
  refine ⟨ended.tryUnload, .inl ⟨sameCurrent, ?_⟩⟩
  intro d inside other shown filled
  rw [sameAuthentications] at inside
  rw [sameCurrent] at shown
  rw [samePresented]
  have shownT : t.current = some other := shown
  rcases List.mem_cons.mp inside with here | there
  · rw [current, shownT] at accepted
    exact ⟨password, here ▸ List.mem_cons_self, accepts_some other password filled accepted⟩
  · have ⟨earlier, member, verified⟩ := known d there other shownT filled
    exact ⟨earlier, List.mem_cons_of_mem _ member, verified⟩

theorem unloading_keeps (promise : Option Nat) (sound : Sound (t.push (.unloading promise)))
    (known : Known verifyPassword t) :
    Keeps verifyPassword t ({ t with repoPromises := none }.push .committing) := by
  have ended := sound.drop rfl
  have fewer : Sound { t with repoPromises := none } :=
    ended.quiet rfl rfl rfl
      (fun load inUse => inUse.imp id (fun other => .inr (other.resolve_left (by simp))))
      (fun repo inUse => ended.made repo inUse) (.inl rfl)
  exact keeps_same (fewer.start rfl (by simp [Handler.repo]) (by simp)) known rfl rfl rfl

theorem waiting_keeps (device : D) (load : Nat) (n : Next) (hash : Option JsString)
    (sound : Sound (t.push (.waiting device load n))) (known : Known verifyPassword t)
    (done : t.loads[load]? = some (.done hash)) :
    Keeps verifyPassword t ({ t with repos := some load }.push (.given device load n)) := by
  have inUse : (t.push (.waiting device load n)).Held load :=
    Sound.held_done ((Branch.push_refers t _ load).mpr (.inr rfl)) done
  have current : ({ t with repos := some load } : Branch D).current = t.current :=
    (Sound.passwordHash_done _ _ _ done).trans (sound.hash_eq load hash inUse done)
  refine keeps_same ?_ known current rfl rfl
  refine sound.quiet rfl rfl ?_ (fun other refers => ?_) (fun repo refers => ?_) ?_
  · rw [Branch.push_changing, Branch.push_changing]
    rfl
  · rcases (Branch.push_refers _ _ other).mp refers with (live | promised) | given
    · exact (some.inj live) ▸ inUse.1
    · exact (Branch.push_refers t _ other).mpr (.inl (.inr promised))
    · exact (some.inj given) ▸ inUse.1
  · rcases refers with live | ⟨d, m, member⟩
    · exact ⟨hash, (some.inj live) ▸ done⟩
    · rcases List.mem_cons.mp member with here | there
      · cases here
        exact ⟨hash, done⟩
      · exact sound.made repo (.inr ⟨d, m, List.mem_cons_of_mem _ there⟩)
  · cases changes : (t.push (.waiting device load n)).changing with
    | nil => exact .inr rfl
    | cons change rest =>
      have ⟨_, _, live, only⟩ := sound.window change.1 change.2 (by simp [changes])
      exact .inl ((only load inUse) ▸ live.symm)

theorem save_unloaded (oldPassword newHash : JsString) (settings : Option JsString)
    (sound : Sound (t.push (.verifying oldPassword newHash settings)))
    (still : (t.push (.verifying oldPassword newHash settings)).changing = [])
    (unused : ∀ load, ¬ (t.push (.verifying oldPassword newHash settings)).Held load) :
    Sound ({ t with saved := some newHash }.push (.saved none newHash)) := by
  have ended := sound.drop rfl
  have changing : ({ t with saved := some newHash }.push (.saved none newHash)).changing = [] := by
    rw [Branch.push_changing]
    exact changing_drop still
  refine ⟨fun repo inUse => ?_, fun _ load hash ⟨inUse, good⟩ _ => ?_, fun repo hash member => ?_⟩
  · apply ended.made repo
    simpa using inUse
  · have refers : t.refers load := ((Branch.push_refers _ _ load).mp inUse).resolve_right (by simp [Handler.repo])
    exact absurd ⟨(Branch.push_refers t _ load).mpr (.inl refers), good⟩ (unused load)
  · rw [changing] at member
    cases member

theorem resume_keeps (sound : Sound (t.push h)) (known : Known verifyPassword t)
    (allowed : GoesOn verifyPassword (t.push h) h) (ran : resume verifyPassword t h = some next) :
    Keeps verifyPassword t next := by
  cases h with
  | asking device temporary n =>
    obtain rfl := some.inj ran
    have ⟨current, authentications, presented⟩ := getOrLoadRepo_same t device temporary n
    exact keeps_same ((sound.drop rfl).getOrLoadRepo device temporary n) known current authentications presented
  | waiting device load n =>
    have ended := sound.drop rfl
    simp only [resume] at ran
    split at ran
    · next hash done =>
        obtain rfl := some.inj ran
        exact waiting_keeps device load n hash sound known done
    · obtain rfl := some.inj ran
      exact keeps_same ended known rfl rfl rfl
    · cases ran
  | given device repo n =>
    cases n with
    | watchBranch =>
      obtain rfl := some.inj ran
      exact keeps_same (sound.drop rfl) known rfl rfl rfl
    | addAtoms =>
      obtain rfl := some.inj ran
      exact keeps_same (sound.drop rfl) known rfl rfl rfl
    | authenticate password =>
      simp only [resume] at ran
      split at ran
      · next accepted =>
          obtain rfl := some.inj ran
          exact authenticate_keeps device repo password sound known accepted
      · obtain rfl := some.inj ran
        have ⟨current, authentications, presented⟩ := tryUnload_same t
        exact keeps_same (sound.drop rfl).tryUnload known current authentications presented
  | verifying oldPassword newHash settings =>
    simp only [resume] at ran
    split at ran
    · next accepted =>
        obtain rfl := some.inj ran
        have ⟨still, nobody, _, unused⟩ := allowed accepted
        exact ⟨save_unloaded oldPassword newHash settings sound still unused, .inr nobody⟩
    · obtain rfl := some.inj ran
      exact keeps_same (sound.drop rfl) known rfl rfl rfl
  | saved repo newHash =>
    cases repo with
    | none =>
      obtain rfl := some.inj ran
      exact keeps_same (sound.drop rfl) known rfl rfl rfl
    | some repo =>
      obtain rfl := some.inj ran
      exact ⟨sound.complete, .inr rfl⟩
  | leaving =>
    obtain rfl := some.inj ran
    have ⟨current, authentications, presented⟩ := tryUnload_same t
    exact keeps_same (sound.drop rfl).tryUnload known current authentications presented
  | unloading promise =>
    cases promise with
    | none =>
      obtain rfl := some.inj ran
      exact unloading_keeps none sound known
    | some load =>
      simp only [resume] at ran
      split at ran
      · obtain rfl := some.inj ran
        exact unloading_keeps (some load) sound known
      · obtain rfl := some.inj ran
        exact keeps_same (sound.drop rfl) known rfl rfl rfl
      · cases ran
  | committing =>
    obtain rfl := some.inj ran
    have ended := sound.drop rfl
    have still := changing_drop allowed
    refine keeps_same ?_ known (ended.current_eq still).symm rfl rfl
    refine ended.quiet rfl rfl rfl (fun load inUse => ?_) (fun repo inUse => ?_) (.inr still)
    · exact .inr (inUse.resolve_left (by simp))
    · exact ended.made repo (.inr (inUse.resolve_left (by simp)))

theorem goesOn_front {i : Nat} (found : s.handlers[i]? = some h) (allowed : GoesOn verifyPassword s h) :
    GoesOn verifyPassword ({ s with handlers := s.handlers.eraseIdx i }.push h) h := by
  have ⟨inside, same⟩ := List.getElem?_eq_some_iff.mp found
  have perm := List.getElem_cons_eraseIdx_perm inside
  rw [same] at perm
  have changing : s.changing = [] → ({ s with handlers := s.handlers.eraseIdx i }.push h).changing = [] := by
    intro still
    have moved : ({ s with handlers := s.handlers.eraseIdx i }.push h).changing.Perm s.changing :=
      perm.filterMap Handler.change
    rw [still] at moved
    exact moved.eq_nil
  cases h with
  | verifying oldPassword newHash settings =>
    intro accepted
    have ⟨still, nobody, unloaded, unused⟩ := allowed accepted
    refine ⟨changing still, nobody, unloaded, fun load ⟨inUse, good⟩ => unused load ⟨?_, good⟩⟩
    simpa only [Branch.refers, Branch.push_repos, Branch.push_repoPromises, Branch.push_handlers,
      perm.mem_iff] using inUse
  | committing => exact changing allowed
  | _ => trivial

theorem take_keeps [DecidableEq D] (sound : Sound s) (known : Known verifyPassword s) (label : Label D)
    (allowed : Allowed verifyPassword s label) (ran : take verifyPassword s label = some next) :
    Keeps verifyPassword s next := by
  have begins : ∀ (t : Branch D) device temporary n, t.loads = s.loads → t.saved = s.saved →
      t.handlers = s.handlers → t.repos = s.repos → t.repoPromises = s.repoPromises →
      Sound (t.push (.asking device temporary n)) := by
    intro t device temporary n loads saved handlers repos promises
    have same : Sound t := by
      refine sound.quiet loads saved (by rw [Branch.changing, handlers, Branch.changing])
        (fun load inUse => ?_) (fun repo inUse => ?_) (.inl repos)
      · rwa [Branch.refers, repos, promises, handlers] at inUse
      · rw [repos, handlers] at inUse
        exact sound.made repo inUse
    exact same.start rfl (by simp [Handler.repo]) (by simp)
  cases label with
  | watchBranch device temporary =>
    obtain rfl := some.inj ran
    exact keeps_same (begins _ _ _ _ rfl rfl rfl rfl rfl) known rfl rfl rfl
  | addAtoms device isTemp =>
    obtain rfl := some.inj ran
    exact keeps_same (begins _ _ _ _ rfl rfl rfl rfl rfl) known rfl rfl rfl
  | authenticate device password =>
    obtain rfl := some.inj ran
    exact keeps_same (begins _ _ _ _ rfl rfl rfl rfl rfl) known rfl rfl rfl
  | setPassword oldPassword newPassword newHash =>
    simp only [take] at ran
    split at ran
    · split at ran
      · next repo live =>
          split at ran
          · next accepted =>
              obtain rfl := some.inj ran
              have ⟨still, only⟩ := allowed repo live accepted
              refine keeps_same (sound.save live newHash still only) known ?_ rfl rfl
              simp [Branch.current, Branch.push, live]
          · obtain rfl := some.inj ran
            exact keeps_same sound known rfl rfl rfl
      · obtain rfl := some.inj ran
        exact keeps_same (sound.start rfl (by simp [Handler.repo]) (by simp)) known rfl rfl rfl
    · cases ran
  | leave device =>
    simp only [take] at ran
    split at ran
    · obtain rfl := some.inj ran
      exact keeps_same sound known rfl rfl rfl
    · obtain rfl := some.inj ran
      have left : Sound { s with watchers := s.watchers.erase device } :=
        sound.quiet rfl rfl rfl (fun _ inUse => inUse) (fun repo inUse => sound.made repo inUse)
          (.inl rfl)
      exact keeps_same (left.start rfl (by simp [Handler.repo]) (by simp)) known rfl rfl rfl
  | resume i =>
    simp only [take] at ran
    split at ran
    · next h found =>
        have kept := resume_keeps (sound.front found) known (goesOn_front found (allowed h found)) ran
        exact ⟨kept.sound, kept.known⟩
    · cases ran
  | readSettings load =>
    simp only [take] at ran
    split at ran
    · next found =>
        obtain rfl := some.inj ran
        refine keeps_same (sound.advance load _ _ found (by simp) (by simp) ?_) known
          (sound.current_advance load _ _ found (by simp)) rfl rfl
        intro hash shown
        have empty : hash = none := by simpa [eq_comm] using shown
        exact .inr (empty.trans (allowed found).symm)
    · next found =>
        obtain rfl := some.inj ran
        refine keeps_same (sound.advance load _ _ found (by simp) (by simp) ?_) known
          (sound.current_advance load _ _ found (by simp)) rfl rfl
        intro hash shown
        exact .inr (by simpa [eq_comm] using shown)
    · cases ran
  | finishLoad load =>
    simp only [take] at ran
    split at ran
    · next hash found =>
        obtain rfl := some.inj ran
        refine keeps_same (sound.advance load _ _ found (by simp) (by simp) ?_) known
          (sound.current_advance load _ _ found (by simp)) rfl rfl
        intro other shown
        exact .inl (by simpa [eq_comm] using shown)
    · cases ran
  | failLoad load =>
    simp only [take] at ran
    split at ran
    · next found =>
        obtain rfl := some.inj ran
        exact keeps_same (sound.advance load _ _ found (by simp) (by simp) (by simp)) known
          (sound.current_advance load _ _ found (by simp)) rfl rfl
    · cases ran

end Keeps

/-! ### Every run -/

section Runs

variable [DecidableEq D] {verifyPassword : JsString → JsString → Bool} {s next : Branch D}

theorem step_keeps (label : Label D) (sound : Sound s ∧ Known verifyPassword s)
    (allowed : Allowed verifyPassword s label) (ran : step verifyPassword s label = some next) :
    Sound next ∧ Known verifyPassword next := by
  have ⟨taken, took, same⟩ := Option.map_eq_some_iff.mp ran
  have kept := take_keeps sound.1 sound.2 label allowed took
  split at same
  · next unchanged =>
      subst same
      refine ⟨kept.sound, ?_⟩
      rcases kept.known with ⟨_, known⟩ | nobody
      · exact known
      · intro d inside
        rw [nobody] at inside
        cases inside
  · next changed =>
      subst same
      have nobody := kept.known.resolve_left (fun both => changed both.1)
      refine ⟨kept.sound.quiet rfl rfl rfl (fun _ inUse => inUse)
        (fun repo inUse => kept.sound.made repo inUse) (.inl rfl), ?_⟩
      intro d inside
      rw [nobody] at inside
      cases inside

omit [DecidableEq D] in
theorem sound_idle (saved : Option JsString) : Sound (idle saved : Branch D) := by
  refine ⟨fun repo inUse => ?_, fun _ load hash inUse => ?_, fun repo hash member => ?_⟩
  · simp [idle] at inUse
  · simp [idle, Branch.Held, Branch.refers] at inUse
  · simp [idle, Branch.changing] at member

theorem reached_sound (saved : Option JsString)
    (reached : Reaches (step verifyPassword) (Allowed verifyPassword) (idle saved) s) :
    Sound s ∧ Known verifyPassword s := by
  refine reached.invariant (fun s => Sound s ∧ Known verifyPassword s) ⟨sound_idle saved, fun d inside => ?_⟩
    (fun _ label _ sound allowed ran => step_keeps label sound allowed ran)
  cases inside

variable {T : Type} [DecidableEq T] (getHash : AtomHashInput T → JsString)

/-- The device is let in: some event of it changes a branch with the settings of the repository. -/
def Changes (s : Branch D) (device : D) (repo : Nat) : Prop :=
  ∃ (live : Live T) (event : AddAtomsEvent T) (isTemp : Bool) (next : Live T) (sent : Sent T),
    live.data.settings.passwordHash = passwordHash s.loads repo ∧
    live.addAtoms getHash event isTemp (decide (device ∈ s.branchAuthentications)) = some (next, sent) ∧
    next ≠ live

theorem authenticated_of_changes (s : Branch D) (device : D) (repo : Nat) (hash : JsString)
    (shown : passwordHash s.loads repo = some hash) (filled : hash ≠ [])
    (changes : Changes getHash s device repo) : device ∈ s.branchAuthentications := by
  have ⟨live, event, isTemp, next, sent, settings, ran, other⟩ := changes
  by_contra absent
  have blocked : (live.data.settings.passwordHash.any (· ≠ []) &&
      !decide (device ∈ s.branchAuthentications)) = true := by
    rw [settings, shown]
    simp [filled, absent]
  simp only [Live.addAtoms, blocked, if_true, some.injEq, Prod.mk.injEq] at ran
  exact other ran.1.symm

/-- A device whose event changes a protected branch has presented its current password since that was
set. -/
theorem password_presented (saved : Option JsString)
    (reached : Reaches (step verifyPassword) (Allowed verifyPassword) (idle saved) s) (device : D)
    (repo : Nat) (ready : .given device repo .addAtoms ∈ s.handlers)
    (changes : Changes getHash s device repo) (hash : JsString) (isCurrent : s.current = some hash)
    (filled : hash ≠ []) :
    ∃ password, (device, password) ∈ s.presented ∧ verifyPassword password hash = true := by
  have ⟨sound, known⟩ := reached_sound saved reached
  have ⟨own, done⟩ := sound.made repo (.inr ⟨device, _, ready⟩)
  have held := Sound.held_done (.inr (.inr ⟨_, ready, rfl⟩)) done
  have shown : passwordHash s.loads repo = some hash :=
    (Sound.passwordHash_done _ _ _ done).trans ((sound.hash_eq repo own held done).trans isCurrent)
  exact known device (authenticated_of_changes getHash s device repo hash shown filled changes) hash
    isCurrent filled

end Runs

/-! ### A password that is changed while the branch is not loaded -/

section Sample

open HashText StageReplay

/-- A check whose hashes are the passwords themselves. -/
def plainVerify (password hash : JsString) : Bool := password = hash

def firstPassword : JsString := JsString.lit ['1']

def secondPassword : JsString := JsString.lit ['2']

/-- The device authenticates; the branch is loaded for it and unloaded again. -/
def authentication : List (Label Nat) :=
  [.authenticate 0 firstPassword, .resume 0, .readSettings 0, .finishLoad 0, .resume 0, .resume 0,
    .resume 0, .resume 0]

/-- The same device sends atoms, and the branch is loaded for them. -/
def addition (load : Nat) : List (Label Nat) :=
  [.addAtoms 0 false, .resume 0, .readSettings load, .finishLoad load, .resume 0]

/-- Another handler changes the password of the branch that is not loaded. -/
def change : List (Label Nat) :=
  [.setPassword firstPassword secondPassword secondPassword, .resume 0, .resume 0]

def sampleAddition (passwordHash : JsString) : Live Unit :=
  { sampleLive with
    data := { sampleLive.data with
      settings := { sampleLive.data.settings with passwordHash := some passwordHash } } }

def calm (s : Branch D) : Label D → Bool
  | .setPassword _ _ _ => false
  | .resume i =>
    match s.handlers[i]? with
    | some (.verifying _ _ _) => false
    | _ => s.changing = []
  | .readSettings load => s.loads[load]? ≠ some (.loading true)
  | _ => true

theorem allowed_of_calm (s : Branch D) (label : Label D) (still : calm s label = true) :
    Allowed plainVerify s label := by
  cases label with
  | setPassword oldPassword newPassword newHash => cases still
  | resume i =>
    intro handler found
    simp only [calm, found] at still
    cases handler with
    | verifying oldPassword newHash settings => cases still
    | committing =>
      have none : s.changing = [] := of_decide_eq_true still
      exact none
    | _ => trivial
  | readSettings load =>
    intro found
    simp [calm, found] at still
  | _ => trivial

theorem sample_changes (s : Branch Nat) (repo : Nat) (hash : JsString)
    (one : hash ∈ [firstPassword, secondPassword]) (shown : passwordHash s.loads repo = some hash)
    (inside : 0 ∈ s.branchAuthentications) : Changes unitHash s 0 repo := by
  have runs : ∀ hash ∈ [firstPassword, secondPassword],
      ((sampleAddition hash).addAtoms unitHash addSample.1 false true).map
        (fun made => made.1.data.repo.getAtoms) = some [sampleAtom] := by decide +kernel
  have ⟨made, ran, same⟩ := Option.map_eq_some_iff.mp (runs hash one)
  refine ⟨sampleAddition hash, addSample.1, false, made.1, made.2, shown.symm, ?_, fun equal => ?_⟩
  · rw [decide_eq_true inside]
    exact ran
  · rw [equal] at same
    cases same

/-- The device that has presented the password is let in. -/
theorem sample_presented : ∃ s : Branch Nat,
    runAll (step plainVerify) (idle (some firstPassword)) (authentication ++ addition 1) = some s ∧
      Changes unitHash s 0 1 ∧ s.current = some firstPassword ∧
      ∃ password, (0, password) ∈ s.presented ∧ plainVerify password firstPassword = true := by
  have run : (runAll (step plainVerify) (idle (some firstPassword) : Branch Nat)
      (authentication ++ addition 1)).map (fun s => (s.handlers, s.branchAuthentications, s.current,
        passwordHash s.loads 1)) = some ([.given 0 1 .addAtoms], [0], some firstPassword,
          some firstPassword) := by decide +kernel
  have quiet : AllAllowed (step plainVerify) (fun s label => calm s label = true)
      (idle (some firstPassword) : Branch Nat) (authentication ++ addition 1) := by decide +kernel
  have ⟨s, ran, shown⟩ := Option.map_eq_some_iff.mp run
  simp only [Prod.mk.injEq] at shown
  have ⟨handlers, authenticated, current, hash⟩ := shown
  have changes := sample_changes s 1 firstPassword (by simp) hash (by simp [authenticated])
  refine ⟨s, ran, changes, current, ?_⟩
  have reached := reaches_of_runAll _ (quiet.weaken _ allowed_of_calm) ran
  exact password_presented unitHash _ reached 0 1 (by simp [handlers]) changes firstPassword current
    (by decide)

/-- The device is let in after the change, and has not presented the new password. -/
theorem old_password_let_in : ∃ s : Branch Nat,
    runAll (step plainVerify) (idle (some firstPassword)) (authentication ++ change ++ addition 1) =
      some s ∧ .given 0 1 .addAtoms ∈ s.handlers ∧ Changes unitHash s 0 1 ∧
      s.current = some secondPassword ∧
      ¬ ∃ password, (0, password) ∈ s.presented ∧ plainVerify password secondPassword = true := by
  have run : (runAll (step plainVerify) (idle (some firstPassword) : Branch Nat)
      (authentication ++ change ++ addition 1)).map (fun s => (s.handlers, s.branchAuthentications,
        s.presented)) = some ([.given 0 1 .addAtoms], [0], []) := by decide +kernel
  have hashes : (runAll (step plainVerify) (idle (some firstPassword) : Branch Nat)
      (authentication ++ change ++ addition 1)).map (fun s => (s.current, passwordHash s.loads 1)) =
        some (some secondPassword, some secondPassword) := by decide +kernel
  have ⟨s, ran, shown⟩ := Option.map_eq_some_iff.mp run
  rw [ran, Option.map_some, Option.some.injEq, Prod.mk.injEq] at hashes
  simp only [Prod.mk.injEq] at shown
  have ⟨handlers, authenticated, presented⟩ := shown
  refine ⟨s, ran, by simp [handlers],
    sample_changes s 1 secondPassword (by simp) hashes.2 (by simp [authenticated]), hashes.1, ?_⟩
  simp [presented]

end Sample

end CasualOS.BranchPasswords

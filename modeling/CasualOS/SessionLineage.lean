import CasualOS.AuthController

/-! Which sessions come from which, what has been revoked, and what it takes to stay revoked. -/

namespace CasualOS.SessionLineage

open AuthController
open MemoryAuthStore (findSession findSession_member findSession_saveSession findUser_saveUser mem_saveSession
  sessions_saveUser users_saveSession)
open Option (some)

/-- The session is one of `roots`, or was created in the place of one that descends from them. -/
inductive Descends (sessions : List AuthSession) (userId : JsString) (roots : List AuthSession) :
    JsString → Prop where
  | root {session : AuthSession} : session ∈ roots → session.userId = userId →
      Descends sessions userId roots session.sessionId
  | replaced {session : AuthSession} {previous : JsString} : session ∈ sessions → session.userId = userId →
      session.previousSessionId = some previous → Descends sessions userId roots previous →
      Descends sessions userId roots session.sessionId

/-- A revocation that has succeeded. `existed` are the sessions that were stored when it did. -/
inductive Revocation where
  | session (userId sessionId : JsString)
  | allSessions (userId : JsString) (existed : List AuthSession)
  deriving DecidableEq, Repr

/-- The key of this session is no longer good. -/
def Revocation.Forbids (sessions : List AuthSession) (userId sessionId : JsString) : Revocation → Prop
  | .session revokedUser revokedId => revokedUser = userId ∧ revokedId = sessionId
  | .allSessions revokedUser existed =>
    revokedUser = userId ∧ Descends sessions userId existed sessionId

/-- The user, if there is one, has revoked all sessions since this one was granted. -/
def Covered (s : MemoryAuthStore) (session : AuthSession) : Prop :=
  ∀ user, s.findUser session.userId = some user → revokesGranted user session = true

variable {first second : AuthSession} {revocation : Revocation}

theorem issued_fields (same : first.issued = second.issued) :
    first.userId = second.userId ∧ first.sessionId = second.sessionId ∧
      first.grantedTimeMs = second.grantedTimeMs ∧ first.previousSessionId = second.previousSessionId := by
  have fields := AuthSession.mk.inj same
  exact ⟨fields.1, fields.2.1, fields.2.2.2.1, fields.2.2.2.2.2.2.2.1⟩

theorem revokesGranted_issued (same : first.issued = second.issued)
    (user : AuthUser) : revokesGranted user first = revokesGranted user second := by
  unfold revokesGranted
  rw [(issued_fields same).2.2.1]

theorem Covered.of_issued {s : MemoryAuthStore}
    (same : first.issued = second.issued) (covered : Covered s first) : Covered s second := by
  intro user found
  rw [← revokesGranted_issued same]
  exact covered user ((issued_fields same).1 ▸ found)

/-! ### From one store to a later one -/

/-- What a store keeps, whatever a handler does to it. `added` is the session that was added, if one was. -/
structure Later (now : Int) (before after : MemoryAuthStore) (added : Option AuthSession) : Prop where
  found : ∀ userId sessionId stored, before.findSession userId sessionId = some stored →
    ∃ kept, after.findSession userId sessionId = some kept ∧ kept.issued = stored.issued ∧
      (isRevoked now stored = true → isRevoked now kept = true)
  members : ∀ session ∈ after.sessions, added = some session ∨
    ∃ old ∈ before.sessions, session.issued = old.issued
  unused : ∀ session, added = some session → ∀ old ∈ before.sessions, old.sessionId ≠ session.sessionId
  users : ∀ userId, (before.findUser userId).isSome = true → (after.findUser userId).isSome = true
  covered : ∀ session ∈ before.sessions, Covered before session → Covered after session

/-- Every replaced session is stored. -/
def Rooted (s : MemoryAuthStore) : Prop :=
  ∀ session ∈ s.sessions, ∀ previous, session.previousSessionId = some previous →
    (s.findSession session.userId previous).isSome = true

section Keeping

variable {now : Int} {before after : MemoryAuthStore} {added : Option AuthSession}

variable {userId sessionId : JsString}

theorem Later.isSome (later : Later now before after added)
    (stored : (before.findSession userId sessionId).isSome = true) :
    (after.findSession userId sessionId).isSome = true := by
  have ⟨session, found⟩ := Option.isSome_iff_exists.mp stored
  have ⟨kept, there, _⟩ := later.found userId sessionId session found
  rw [there]
  rfl

theorem Later.apart (later : Later now before after added) {session : AuthSession} (new : added = some session)
    (stored : (before.findSession userId sessionId).isSome = true) : sessionId ≠ session.sessionId := by
  have ⟨old, found⟩ := Option.isSome_iff_exists.mp stored
  have ⟨member, _, ids⟩ := findSession_member found
  exact ids ▸ later.unused session new old member

theorem Later.descends (later : Later now before after added) (rooted : Rooted before)
    {roots : List AuthSession} (descends : Descends after.sessions userId roots sessionId)
    (stored : (before.findSession userId sessionId).isSome = true) :
    Descends before.sessions userId roots sessionId := by
  induction descends with
  | root member user => exact .root member user
  | replaced member user previous _ ih =>
    rcases later.members _ member with new | ⟨old, there, same⟩
    · exact absurd rfl (later.apart new stored)
    · have ⟨users, ids, _, previousIds⟩ := issued_fields same
      have before' := rooted old there _ (previousIds ▸ previous)
      rw [← users, user] at before'
      rw [ids]
      exact .replaced there (users ▸ user) (previousIds ▸ previous) (ih before')

theorem Later.forbids (later : Later now before after added) (rooted : Rooted before)
    {revocation : Revocation} (forbids : revocation.Forbids after.sessions userId sessionId)
    (stored : (before.findSession userId sessionId).isSome = true) :
    revocation.Forbids before.sessions userId sessionId := by
  cases revocation with
  | session revokedUser revokedId => exact forbids
  | allSessions revokedUser existed => exact ⟨forbids.1, later.descends rooted forbids.2 stored⟩

end Keeping

/-! ### What the handlers do to a store -/

section Changes

variable {now : Int} {s after : MemoryAuthStore}

theorem Later.unchanged (sessions : after.sessions = s.sessions) (users : after.users = s.users) :
    Later now s after none where
  found userId sessionId stored found := by
    unfold findSession at found ⊢
    rw [sessions]
    exact ⟨stored, found, rfl, id⟩
  members session member := .inr ⟨session, sessions ▸ member, rfl⟩
  unused session new := by cases new
  users userId known := by
    unfold MemoryAuthStore.findUser at known ⊢
    rwa [users]
  covered session _ covered user found := by
    unfold MemoryAuthStore.findUser at found
    rw [users] at found
    exact covered user found

variable {session : AuthSession}

theorem Later.resave {stored : AuthSession} (found : s.findSession session.userId session.sessionId = some stored)
    (same : session.issued = stored.issued) (revoked : isRevoked now session = true) :
    Later now s (s.saveSession session) none where
  found userId sessionId other there := by
    rw [findSession_saveSession]
    by_cases ids : session.userId = userId ∧ session.sessionId = sessionId
    · rw [if_pos ids]
      rw [ids.1, ids.2, there] at found
      exact ⟨session, rfl, same.trans (congrArg AuthSession.issued (some.inj found).symm),
        fun _ => revoked⟩
    · rw [if_neg ids]
      exact ⟨other, there, rfl, id⟩
  members other member := by
    rcases mem_saveSession member with new | old
    · exact .inr ⟨stored, (findSession_member found).1, by rw [new, same]⟩
    · exact .inr ⟨other, old, rfl⟩
  unused session new := by cases new
  users userId known := by
    unfold MemoryAuthStore.findUser at known ⊢
    rwa [users_saveSession]
  covered other _ covered user found := by
    unfold MemoryAuthStore.findUser at found
    rw [users_saveSession] at found
    exact covered user found

theorem Later.revoke {userId sessionId : JsString}
    (read : ∃ stored, s.findSession userId sessionId = some stored ∧ session.issued = stored.issued)
    (revoked : isRevoked now session = true) :
    Later now s (s.saveSession session) none ∧
      (s.saveSession session).findSession userId sessionId = some session := by
  have ⟨stored, found, same⟩ := read
  have ⟨_, users, ids⟩ := findSession_member found
  have ⟨sameUser, sameId, _⟩ := issued_fields same
  have user := sameUser.trans users
  have id := sameId.trans ids
  refine ⟨.resave (by rwa [user, id]) same revoked, ?_⟩
  rw [findSession_saveSession, if_pos ⟨user, id⟩]

theorem Later.add (unused : ∀ old ∈ s.sessions, old.sessionId ≠ session.sessionId) :
    Later now s (s.saveSession session) (some session) where
  found userId sessionId other there := by
    have ⟨member, _, ids⟩ := findSession_member there
    rw [findSession_saveSession, if_neg]
    · exact ⟨other, there, rfl, id⟩
    · intro both
      exact unused other member (ids.trans both.2.symm)
  members other member := by
    rcases mem_saveSession member with new | old
    · exact .inl (congrArg some new.symm)
    · exact .inr ⟨other, old, rfl⟩
  unused other new old member := by
    rw [← some.inj new]
    exact unused old member
  users userId known := by
    unfold MemoryAuthStore.findUser at known ⊢
    rwa [users_saveSession]
  covered other _ covered user found := by
    unfold MemoryAuthStore.findUser at found
    rw [users_saveSession] at found
    exact covered user found

theorem Later.saveUser {user : AuthUser} (known : (s.findUser user.id).isSome = true)
    (covers : ∀ current, s.findUser user.id = some current → ∀ session ∈ s.sessions,
      session.userId = user.id → revokesGranted current session = true → revokesGranted user session = true) :
    Later now s (s.saveUser user) none where
  found userId sessionId stored found := by
    unfold findSession at found ⊢
    rw [sessions_saveUser]
    exact ⟨stored, found, rfl, id⟩
  members session member := .inr ⟨session, by rwa [sessions_saveUser] at member, rfl⟩
  unused session new := by cases new
  users userId there := by
    rw [findUser_saveUser]
    split
    · rfl
    · exact there
  covered session member covered other found := by
    rw [findUser_saveUser] at found
    by_cases own : user.id = session.userId
    · rw [if_pos own] at found
      have ⟨current, there⟩ := Option.isSome_iff_exists.mp known
      rw [← some.inj found]
      exact covers current there session member own.symm (covered current (own ▸ there))
    · rw [if_neg own] at found
      exact covered other found

end Changes

/-! ### Revocations that hold -/

/-- What makes the keys that a revocation forbids be refused. -/
def Effective (s : MemoryAuthStore) (now : Int) : Revocation → Prop
  | .session userId sessionId =>
    ∃ stored, s.findSession userId sessionId = some stored ∧ isRevoked now stored = true
  | .allSessions userId existed =>
    (∀ root ∈ existed, root.userId = userId → (s.findSession userId root.sessionId).isSome = true) ∧
      ∀ session ∈ s.sessions, session.userId = userId →
        Descends s.sessions userId existed session.sessionId → Covered s session

theorem isRevoked_later {now later : Int} (past : now ≤ later) {session : AuthSession}
    (revoked : isRevoked now session = true) : isRevoked later session = true := by
  unfold isRevoked at revoked ⊢
  cases time : session.revokeTimeMs with
  | none =>
    rw [time] at revoked
    cases revoked
  | some revokeTimeMs =>
    rw [time] at revoked
    have ⟨there, come⟩ := of_decide_eq_true revoked
    exact decide_eq_true ⟨there, le_trans come past⟩

theorem Effective.pass {s : MemoryAuthStore} {now later : Int} (past : now ≤ later)
    (effective : Effective s now revocation) : Effective s later revocation := by
  cases revocation with
  | session userId sessionId =>
    have ⟨stored, found, revoked⟩ := effective
    exact ⟨stored, found, isRevoked_later past revoked⟩
  | allSessions userId existed => exact effective

theorem Effective.refuses {s : MemoryAuthStore} {now : Int}
    (effective : Effective s now revocation) {userId sessionId : JsString} {stored : AuthSession}
    (forbids : revocation.Forbids s.sessions userId sessionId)
    (found : s.findSession userId sessionId = some stored) :
    isRevoked now stored = true ∨ Covered s stored := by
  cases revocation with
  | session revokedUser revokedId =>
    have ⟨revoked, there, isRevoked⟩ := effective
    rw [forbids.1, forbids.2, found] at there
    rw [some.inj there]
    exact .inl isRevoked
  | allSessions revokedUser existed =>
    have ⟨member, users, ids⟩ := findSession_member found
    have same : revokedUser = userId := forbids.1
    have descends : Descends s.sessions userId existed stored.sessionId := ids ▸ forbids.2
    exact .inr (effective.2 stored member (users.trans same.symm) (same ▸ descends))

/-- An added session replaces a stored one, if any, and is covered if that is. -/
def Inherits (before after : MemoryAuthStore) (added : Option AuthSession) : Prop :=
  ∀ session, added = some session → ∀ previous, session.previousSessionId = some previous →
    ∃ replaced, before.findSession session.userId previous = some replaced ∧
      (Covered before replaced → Covered after session)

theorem Inherits.nothing {before after : MemoryAuthStore} : Inherits before after none :=
  fun _ new => by cases new

theorem Effective.later {now : Int} {before after : MemoryAuthStore} {added : Option AuthSession}
    (later : Later now before after added) (rooted : Rooted before) (inherits : Inherits before after added)
    (effective : Effective before now revocation) : Effective after now revocation := by
  cases revocation with
  | session userId sessionId =>
    have ⟨stored, found, revoked⟩ := effective
    have ⟨kept, there, _, stays⟩ := later.found userId sessionId stored found
    exact ⟨kept, there, stays revoked⟩
  | allSessions userId existed =>
    have ⟨roots, covered⟩ := effective
    refine ⟨fun root member user => later.isSome (roots root member user), ?_⟩
    intro session member user descends
    rcases later.members session member with new | ⟨old, there, same⟩
    · -- The added session is no root, so that it descends through the one that it replaces.
      generalize chosen : session.sessionId = sessionId at descends
      cases descends with
      | root root rootUser =>
        exact absurd chosen.symm (later.apart new (roots _ root rootUser))
      | @replaced other previous inside otherUser link rest =>
        rcases later.members other inside with otherNew | ⟨old, there, same⟩
        · have equal : other = session := some.inj (otherNew.symm.trans new)
          rw [equal] at link
          have ⟨replaced, found, coveredToo⟩ := inherits session new previous link
          have ⟨stored, parentUser, parentId⟩ := findSession_member found
          have known : (before.findSession userId previous).isSome = true := by
            rw [← user, found]
            rfl
          have past := later.descends rooted rest known
          exact coveredToo (covered replaced stored (parentUser.trans user) (parentId ▸ past))
        · exact absurd ((issued_fields same).2.1.symm.trans chosen.symm) (later.unused session new old there)
    · have ⟨users, ids, _, _⟩ := issued_fields same
      have stored := MemoryAuthStore.findSession_isSome there
      rw [← users, ← ids, user] at stored
      have past := later.descends rooted descends stored
      rw [ids] at past
      exact (later.covered old there (covered old there (users ▸ user) past)).of_issued same.symm

theorem Rooted.later {now : Int} {before after : MemoryAuthStore} {added : Option AuthSession}
    (later : Later now before after added) (rooted : Rooted before) (inherits : Inherits before after added) :
    Rooted after := by
  intro session member previous link
  rcases later.members session member with new | ⟨old, there, same⟩
  · have ⟨replaced, found, _⟩ := inherits session new previous link
    exact later.isSome (Option.isSome_iff_exists.mpr ⟨replaced, found⟩)
  · have ⟨users, _, _, links⟩ := issued_fields same
    rw [users]
    exact later.isSome (rooted old there previous (links ▸ link))

end CasualOS.SessionLineage

import Anfs.File.Actions

/-!
# Credentials

`cred.c`. The user database, the credentials of a task and the memory for an `AUTH` are the
system's; what it answers while one packet is handled is an argument.
-/
namespace Anfs.Cred

/-- The address of a task. -/
abbrev Task := Nat

def NGROUPS : Nat := 32

def CR_DEFAULT_UMASK : UInt32 := 0o22

structure UserGroupCredentials where
  crEuid : UInt32
  crRgid : UInt32
  crGroups : List UInt32
  crUmask : UInt32
  deriving DecidableEq, Repr

structure Passwd where
  pwUid : UInt32
  pwGid : UInt32
  deriving DecidableEq, Repr

structure Group where
  grGid : UInt32
  grMem : List String
  deriving DecidableEq, Repr

/-- The user database. -/
structure Netdb where
  passwd : String → Option Passwd
  group : List Group

/-- What the system answers while a packet is handled: the credentials of the tasks, and
whether the database, `authunix_create` and `AllocVec` are of use. -/
structure Answers where
  credentials : Task → Option UserGroupCredentials
  dbOk : Bool
  authOk : Bool
  memOk : Bool

def getpwnam (db : Netdb) (ans : Answers) (name : String) : Option Passwd :=
  if ans.dbOk then db.passwd name else none

/-- An `AUTH` with the arguments of its `authunix_create`; each has an address of its own. -/
structure AUTH where
  addr : Nat
  uid : UInt32
  gid : UInt32
  gids : List UInt32
  deriving DecidableEq, Repr

/-- `crUserName` is set exactly when `CRF_USER` is, `crUMaskSet` stands for `CRF_UMASK`.
`crGIDS` are the first `cr_NGroups` groups. -/
structure CRED where
  crUserName : Option String
  crUID : UInt32
  crGID : UInt32
  crGIDS : List UInt32
  crUMaskSet : Bool
  crUMask : UInt32
  crAuth : Option AUTH
  crClientCache : Option Task
  crClientCacheUMask : Option Task
  deriving DecidableEq, Repr

/-- The next address of an `AUTH`, and the addresses of those destroyed. -/
structure Auths where
  next : Nat
  destroyed : List Nat
  deriving DecidableEq, Repr

/-- `cr_Init`, of memory that is zero. -/
def crInit : CRED := ⟨none, 0, 0, [], false, 0, none, none, none⟩

def crInvalidateCache (cr : CRED) : CRED :=
  { cr with crClientCache := none, crClientCacheUMask := none }

def crSetUser (db : Netdb) (ans : Answers) (cr : CRED) (user : String) : Bool × CRED :=
  if ans.memOk then
    match getpwnam db ans user with
    | some pw =>
        (true, { cr with
          crUserName := some user, crUID := pw.pwUid, crGID := pw.pwGid, crClientCache := none })
    | none => (false, cr)
  else (false, cr)

def crUpdateCreds (ans : Answers) (cr : CRED) (client : Task) : CRED :=
  if ¬ cr.crUMaskSet ∧ cr.crClientCacheUMask ≠ some client then
    match ans.credentials client with
    | some creds => { cr with crUMask := creds.crUmask, crClientCacheUMask := some client }
    | none => { cr with crUMask := CR_DEFAULT_UMASK, crClientCacheUMask := none }
  else cr

def crSetUMask (cr : CRED) (umask : UInt32) : CRED :=
  { cr with crUMaskSet := true, crUMask := umask, crClientCacheUMask := none }

/-- The loop of `cr_getgroups`; `none` is the result -1. -/
def getgroupsLoop (name : String) (gidsetlen : Nat) :
    List Group → List UInt32 → Option (List UInt32)
  | [], gidset => some gidset
  | grp :: rest, gidset =>
      if name ∈ grp.grMem then
        if gidset.length = gidsetlen then none
        else getgroupsLoop name gidsetlen rest (gidset ++ [grp.grGid])
      else getgroupsLoop name gidsetlen rest gidset

def crGetgroups (db : Netdb) (name : String) (gidsetlen : Nat) : Option (List UInt32) :=
  getgroupsLoop name (if NGROUPS < gidsetlen then NGROUPS else gidsetlen) db.group []

/-- `authunix_create`. -/
def authunixCreate (ans : Answers) (auths : Auths) (uid gid : UInt32) (gids : List UInt32) :
    Option AUTH × Auths :=
  if ans.authOk then (some ⟨auths.next, uid, gid, gids⟩, { auths with next := auths.next + 1 })
  else (none, auths)

/-- The `if(cr->cr_Auth) auth_destroy(cr->cr_Auth)` of `cr_SetAuth`. -/
def authDestroy (cr : CRED) (auths : Auths) : Auths :=
  match cr.crAuth with
  | some auth => { auths with destroyed := auth.addr :: auths.destroyed }
  | none => auths

def crSetAuth (db : Netdb) (ans : Answers) (cr : CRED) (auths : Auths) (client : Task) :
    Option AUTH × CRED × Auths :=
  match cr.crUserName with
  | some user =>
      match getpwnam db ans user, crGetgroups db user NGROUPS with
      | some pw, some groups =>
          let cr := { cr with
            crUID := pw.pwUid, crGID := pw.pwGid, crGIDS := groups, crClientCache := none }
          match authunixCreate ans auths pw.pwUid pw.pwGid groups with
          | (some auth, auths) => (some auth, { cr with crAuth := some auth }, authDestroy cr auths)
          | (none, auths) => (none, cr, auths)
      | _, _ => (none, cr, auths)
  | none =>
      match ans.credentials client with
      | some creds =>
          match authunixCreate ans auths creds.crEuid creds.crRgid creds.crGroups with
          | (some auth, auths) =>
              (some auth,
                { cr with
                  crAuth := some auth
                  crUID := creds.crEuid
                  crGID := creds.crRgid
                  crGIDS := creds.crGroups
                  crClientCache := some client },
                authDestroy cr auths)
          | (none, auths) => (none, cr, auths)
      | none => (none, cr, auths)

def crUpdateAuth (db : Netdb) (ans : Answers) (cr : CRED) (auths : Auths) (client : Task) :
    Bool × CRED × Auths :=
  if cr.crAuth = none ∨ (cr.crUserName = none ∧ cr.crClientCache ≠ some client) then
    let (auth, cr, auths) := crSetAuth db ans cr auths client
    (auth.isSome, cr, auths)
  else (true, cr, auths)

def crAuthNeedsUpdate (ans : Answers) (cr : CRED) (client : Task) : Bool × CRED :=
  if cr.crAuth = none then (true, cr)
  else if cr.crUserName ≠ none then (false, cr)
  else if cr.crClientCache ≠ some client then (true, cr)
  else
    match ans.credentials client with
    | some creds => if creds.crEuid ≠ cr.crUID then (true, crInvalidateCache cr) else (false, cr)
    | none => (false, cr)

/-- Uid, gid and groups. -/
structure Identity where
  uid : UInt32
  gid : UInt32
  gids : List UInt32
  deriving DecidableEq, Repr

def UserGroupCredentials.identity (creds : UserGroupCredentials) : Identity :=
  ⟨creds.crEuid, creds.crRgid, creds.crGroups⟩

def CRED.identity (cr : CRED) : Identity := ⟨cr.crUID, cr.crGID, cr.crGIDS⟩

def AUTH.identity (auth : AUTH) : Identity := ⟨auth.uid, auth.gid, auth.gids⟩

/-- The identity of a user in the database. -/
def userIdentity (db : Netdb) (user : String) : Option Identity :=
  match db.passwd user, crGetgroups db user NGROUPS with
  | some pw, some groups => some ⟨pw.pwUid, pw.pwGid, groups⟩
  | _, _ => none

/-- Whom `cr_SetAuth` makes an `AUTH` for. -/
def wantedIdentity (db : Netdb) (ans : Answers) (cr : CRED) (client : Task) : Option Identity :=
  match cr.crUserName with
  | some user => userIdentity db user
  | none => (ans.credentials client).map UserGroupCredentials.identity

section Functions
variable {db : Netdb} {ans : Answers} {cr cr' : CRED} {auths auths' : Auths} {client : Task}

/-- A successful `cr_SetAuth`: a new `AUTH`, of the identity wanted. -/
structure Renewed (db : Netdb) (ans : Answers) (client : Task) (cr : CRED)
    (auths : Auths) (auth : AUTH)
    (cr' : CRED) (auths' : Auths) : Prop where
  user : cr'.crUserName = cr.crUserName
  stored : cr'.crAuth = some auth
  identity : auth.identity = cr'.identity
  wanted : wantedIdentity db ans cr client = some cr'.identity
  addr : auth.addr = auths.next
  next : auths'.next = auths.next + 1
  destroyed : auths'.destroyed = (cr.crAuth.map AUTH.addr).toList ++ auths.destroyed

theorem authunixCreate_some {uid gid : UInt32} {gids : List UInt32} {auth : AUTH}
    (h : authunixCreate ans auths uid gid gids = (some auth, auths')) :
    auth = ⟨auths.next, uid, gid, gids⟩ ∧ auths' = { auths with next := auths.next + 1 } := by
  unfold authunixCreate at h
  split at h
  · obtain ⟨h₁, h₂⟩ := Prod.mk.inj h
    exact ⟨(Option.some.inj h₁).symm, h₂.symm⟩
  · cases (Prod.mk.inj h).1

theorem authunixCreate_none {uid gid : UInt32} {gids : List UInt32}
    (h : authunixCreate ans auths uid gid gids = (none, auths')) : auths' = auths := by
  unfold authunixCreate at h
  split at h
  · cases (Prod.mk.inj h).1
  · exact (Prod.mk.inj h).2.symm

theorem authDestroy_eq (cr : CRED) (auths : Auths) :
    authDestroy cr auths =
      { auths with destroyed := (cr.crAuth.map AUTH.addr).toList ++ auths.destroyed } := by
  unfold authDestroy
  cases cr.crAuth with
  | none => rfl
  | some auth => rfl

theorem getpwnam_some {user : String} {pw : Passwd} (h : getpwnam db ans user = some pw) :
    db.passwd user = some pw := by
  unfold getpwnam at h
  split at h
  · exact h
  · cases h

theorem crSetAuth_some {auth : AUTH}
    (h : crSetAuth db ans cr auths client = (some auth, cr', auths')) :
    Renewed db ans client cr auths auth cr' auths' := by
  unfold crSetAuth at h
  cases huser : cr.crUserName with
  | some user =>
      simp only [huser] at h
      split at h
      · rename_i pw groups hpw hgroups
        split at h
        · rename_i auth₁ auths₁ hauth
          obtain ⟨rfl, rfl⟩ := authunixCreate_some hauth
          simp only [Prod.mk.injEq, Option.some.injEq] at h
          obtain ⟨rfl, rfl, rfl⟩ := h
          rw [authDestroy_eq]
          refine ⟨huser.symm, rfl, rfl, ?_, rfl, rfl, rfl⟩
          simp only [wantedIdentity, huser, userIdentity, getpwnam_some hpw, hgroups]
          rfl
        · cases (Prod.mk.inj h).1
      · cases (Prod.mk.inj h).1
  | none =>
      simp only [huser] at h
      split at h
      · rename_i creds hcreds
        split at h
        · rename_i auth₁ auths₁ hauth
          obtain ⟨rfl, rfl⟩ := authunixCreate_some hauth
          simp only [Prod.mk.injEq, Option.some.injEq] at h
          obtain ⟨rfl, rfl, rfl⟩ := h
          rw [authDestroy_eq]
          refine ⟨huser.symm, rfl, rfl, ?_, rfl, rfl, rfl⟩
          simp only [wantedIdentity, huser, hcreds]
          rfl
        · cases (Prod.mk.inj h).1
      · cases (Prod.mk.inj h).1

/-- A failing `cr_SetAuth` leaves the old `AUTH`; without a user it changes nothing. -/
theorem crSetAuth_none (h : crSetAuth db ans cr auths client = (none, cr', auths')) :
    auths' = auths ∧ cr'.crAuth = cr.crAuth ∧ cr'.crUserName = cr.crUserName ∧
      (cr.crUserName = none → cr' = cr) := by
  unfold crSetAuth at h
  cases huser : cr.crUserName with
  | some user =>
      simp only [huser] at h
      split at h
      · split at h
        · cases (Prod.mk.inj h).1
        · rename_i auths₁ hauth
          obtain rfl := authunixCreate_none hauth
          simp only [Prod.mk.injEq, true_and] at h
          obtain ⟨rfl, rfl⟩ := h
          exact ⟨rfl, rfl, rfl, nofun⟩
      · simp only [Prod.mk.injEq, true_and] at h
        obtain ⟨rfl, rfl⟩ := h
        exact ⟨rfl, rfl, huser, nofun⟩
  | none =>
      simp only [huser] at h
      split at h
      · split at h
        · cases (Prod.mk.inj h).1
        · rename_i auths₁ hauth
          obtain rfl := authunixCreate_none hauth
          simp only [Prod.mk.injEq, true_and] at h
          obtain ⟨rfl, rfl⟩ := h
          exact ⟨rfl, rfl, huser, fun _ => rfl⟩
      · simp only [Prod.mk.injEq, true_and] at h
        obtain ⟨rfl, rfl⟩ := h
        exact ⟨rfl, rfl, huser, fun _ => rfl⟩

end Functions

end Anfs.Cred
